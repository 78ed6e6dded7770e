import Mathlib.Data.List.Count
import Mathlib.Data.List.Perm.Subperm
import NemoMessenger.Server.Copies

/-!
# Requests that send copies

A row in the stream of a group is worth nothing to its members without the copies. An append sends
them through the limits of the capabilities on this server, which drop what is too much, and it sends
none when one copy cannot be sealed. A revocation adds rows to the streams and sends none at all. So
every member that can be reached gets exactly one copy only under conditions, which are stated here.
-/

namespace NemoMessenger.Server

open NemoMessenger.Data NemoMessenger.Wire

/-! ## Complete fan-out -/

/-- A row that a request adds to the stream of a group, with the group before the request. -/
def NewRow (groups groups' : GroupHost) (groupId : GroupId) (g : GroupState) (row : StreamRow) :
    Prop :=
  groups.groups.lookup groupId = some g ∧ ∃ g' rows,
    groups'.groups.lookup groupId = some g' ∧ g'.stream = g.stream ++ rows ∧ row ∈ rows

/-- The capability behind a target is live: this server knows for its own capabilities, `remote`
says it for others. -/
structure HomeServer.Due (crypto : Crypto) (remote : FanoutTarget → Prop) (home : HomeServer)
    (target : FanoutTarget) : Prop where
  here : home.IsLocal crypto target → (home.liveContact target.deliveryCapability).isSome
  away : ¬ home.IsLocal crypto target → remote target

/-- A row of a stream, and a member of its group. -/
structure CopyTag where
  groupId : GroupId
  seq : ℕ
  credentialId : Key
  deriving DecidableEq

/-- A sealed copy of a new row for a member. -/
def CopyTag.Seals (crypto : Crypto) (groups groups' : GroupHost) (tag : CopyTag)
    (target : FanoutTarget) (outer : OuterEnvelope) : Prop :=
  ∃ g row draw, NewRow groups groups' tag.groupId g row ∧ row.seq = tag.seq ∧
    g.LiveMember tag.credentialId target ∧
    GroupHost.sealCopy crypto row.type row.body target draw = .ok outer

/-- What a request adds to mailboxes and to the outbound queue are copies of the rows it adds to
streams, and each member with a live capability is sent exactly one copy of each row. -/
def CopiesSent (crypto : Crypto) (remote : FanoutTarget → Prop) (groups groups' : GroupHost)
    (home home' : HomeServer) : Prop :=
  ∃ rows : List (CopyTag × IdentityId × StoredEnvelope), ∃ queue : List (CopyTag × OutboundRow),
    home'.history.appended = home.history.appended ++ rows.map Prod.snd ∧
    home'.outbound = home.outbound ++ queue.map Prod.snd ∧
    (∀ e ∈ rows, ∃ target outer, e.1.Seals crypto groups groups' target outer ∧
      home.IsLocal crypto target ∧
      home.capabilityMailbox target.deliveryCapability = some e.2.1 ∧
      crypto.openOuter home.hpke outer = .ok e.2.2.inner) ∧
    (∀ e ∈ queue, ∃ target, e.1.Seals crypto groups groups' target e.2.outer ∧
      ¬ home.IsLocal crypto target ∧ e.2.dest = crypto.serverId target.homeHpkePublic) ∧
    ∀ groupId g row c target, NewRow groups groups' groupId g row → g.LiveMember c target →
      home.Due crypto remote target →
        (rows.map Prod.fst ++ queue.map Prod.fst).count ⟨groupId, row.seq, c⟩ = 1

/-- Every live capability of this server admits one copy for each member it serves. -/
def HomeServer.Admits (crypto : Crypto) (home : HomeServer) (g : GroupState) : Prop :=
  ∀ c target, g.LiveMember c target → home.IsLocal crypto target →
    (home.liveContact target.deliveryCapability).isSome →
      (GroupHost.membersWithTarget g).countP
        (fun m ↦ home.IsBehind crypto target.deliveryCapability m.2) ≤
          home.allowance target.deliveryCapability

section Complete

variable {crypto : Crypto} {remote : FanoutTarget → Prop} {groups groups' : GroupHost}
  {home home' : HomeServer}

theorem GroupState.LiveMember.unique {g : GroupState} {c : Key} {target target' : FanoutTarget}
    (h : g.LiveMember c target) (h' : g.LiveMember c target') : target = target' := by
  obtain ⟨record, hrecord, -, htarget⟩ := h
  obtain ⟨record', hrecord', -, htarget'⟩ := h'
  rw [hrecord] at hrecord'
  cases hrecord'
  rw [htarget] at htarget'
  exact Option.some.inj htarget'

/-- Where nothing is sent, nobody may be waiting for a copy. -/
theorem copiesSent_iff_of_none (happended : home'.history.appended = home.history.appended)
    (houtbound : home'.outbound = home.outbound) :
    CopiesSent crypto remote groups groups' home home' ↔
      ∀ groupId g row c target, NewRow groups groups' groupId g row → g.LiveMember c target →
        ¬ home.Due crypto remote target := by
  constructor
  · rintro ⟨rows, queue, hrows, hqueue, -, -, hcount⟩ groupId g row c target hnew hmember hdue
    rw [happended, List.self_eq_append_right, List.map_eq_nil_iff] at hrows
    rw [houtbound, List.self_eq_append_right, List.map_eq_nil_iff] at hqueue
    have hone := hcount groupId g row c target hnew hmember hdue
    rw [hrows, hqueue] at hone
    cases hone
  · intro hnobody
    refine ⟨[], [], ?_, ?_, nofun, nofun, fun groupId g row c target hnew hmember hdue ↦ ?_⟩
    · rw [happended, List.map_nil, List.append_nil]
    · rw [houtbound, List.map_nil, List.append_nil]
    · exact absurd hdue (hnobody groupId g row c target hnew hmember)

section Delivered

variable {groupId : GroupId} {g : GroupState} {row : StreamRow} {copies : List MemberCopy}
  {rows : List (Key × IdentityId × StoredEnvelope)} {queue : List (Key × OutboundRow)}

/-- The copies of a row are delivered, and the row is the only new one. -/
structure DeliveredRow (crypto : Crypto) (groups groups' : GroupHost) (home home' : HomeServer)
    (groupId : GroupId) (g : GroupState) (row : StreamRow) (copies : List MemberCopy)
    (rows : List (Key × IdentityId × StoredEnvelope)) (queue : List (Key × OutboundRow)) :
    Prop where
  new : ∀ id g' row', NewRow groups groups' id g' row' ↔ id = groupId ∧ g' = g ∧ row' = row
  members : (copies.map fun c ↦ (c.credentialId, c.target)).Perm (GroupHost.membersWithTarget g)
  delivered : Delivered crypto row.type row.body home home' copies rows queue

theorem DeliveredRow.nodup
    (h : DeliveredRow crypto groups groups' home home' groupId g row copies rows queue) :
    (copies.map MemberCopy.credentialId).Nodup := by
  have hids := ((h.members.map Prod.fst).nodup_iff).mpr (GroupHost.nodup_membersWithTarget g)
  rwa [List.map_map] at hids

theorem DeliveredRow.member
    (h : DeliveredRow crypto groups groups' home home' groupId g row copies rows queue)
    {c : Key} {target : FanoutTarget} :
    g.LiveMember c target ↔ ∃ copy ∈ copies, copy.credentialId = c ∧ copy.target = target := by
  rw [GroupState.LiveMember, ← GroupHost.mem_membersWithTarget, ← h.members.mem_iff, List.mem_map]
  simp

theorem DeliveredRow.countP_behind
    (h : DeliveredRow crypto groups groups' home home' groupId g row copies rows queue)
    (capability : Key) :
    (GroupHost.membersWithTarget g).countP (fun m ↦ home.IsBehind crypto capability m.2) =
      copies.countP fun c ↦ home.IsBehind crypto capability c.target := by
  rw [← h.members.countP_eq, List.countP_map]
  rfl

theorem DeliveredRow.eq_of_id
    (h : DeliveredRow crypto groups groups' home home' groupId g row copies rows queue)
    {c c' : MemberCopy} (hc : c ∈ copies) (hc' : c' ∈ copies)
    (hid : c.credentialId = c'.credentialId) : c = c' :=
  List.inj_on_of_nodup_map h.nodup hc hc' hid

/-- No member is tagged twice. -/
theorem DeliveredRow.nodup_tags
    (h : DeliveredRow crypto groups groups' home home' groupId g row copies rows queue) :
    (rows.map Prod.fst ++ queue.map Prod.fst).Nodup := by
  have hfilter (p : MemberCopy → Bool) :
      ((copies.filter p).map MemberCopy.credentialId).Nodup :=
    h.nodup.sublist (List.filter_sublist.map _)
  refine List.nodup_append.mpr ⟨(hfilter _).sublist h.delivered.rowsOnce, ?_, ?_⟩
  · rw [h.delivered.queuedOnce]
    exact hfilter _
  · rintro id hrow id' hqueued rfl
    have hlocal := h.delivered.rowsOnce.subset hrow
    rw [h.delivered.queuedOnce] at hqueued
    simp only [List.mem_map, List.mem_filter, decide_eq_true_eq] at hlocal hqueued
    obtain ⟨c, ⟨hc, hhere⟩, hid⟩ := hlocal
    obtain ⟨c', ⟨hc', haway⟩, hid'⟩ := hqueued
    rw [h.eq_of_id hc hc' (hid.trans hid'.symm)] at hhere
    exact haway hhere

/-- Within the allowance every copy for a capability becomes a row. -/
theorem DeliveredRow.mem_rows
    (h : DeliveredRow crypto groups groups' home home' groupId g row copies rows queue)
    {c : MemberCopy} (hc : c ∈ copies) (hlocal : home.IsLocal crypto c.target)
    (hlive : (home.liveContact c.target.deliveryCapability).isSome)
    (hadmits : copies.countP (fun c' ↦ home.IsBehind crypto c.target.deliveryCapability c'.target) ≤
      home.allowance c.target.deliveryCapability) : c.credentialId ∈ rows.map Prod.fst := by
  set capability := c.target.deliveryCapability with hcapability
  have hcount := h.delivered.admitted capability hlive
  rw [Nat.min_eq_left hadmits, List.countP_eq_length_filter, List.countP_eq_length_filter] at hcount
  have hnodup : ((rows.filter fun e ↦ e.2.2.inner.deliveryCapability = capability).map
      Prod.fst).Nodup :=
    (List.nodup_append.mp h.nodup_tags).1.sublist (List.filter_sublist.map _)
  have hsub : (rows.filter fun e ↦ e.2.2.inner.deliveryCapability = capability).map Prod.fst ⊆
      (copies.filter fun c' ↦ home.IsBehind crypto capability c'.target).map
        MemberCopy.credentialId := by
    intro id hid
    simp only [List.mem_map, List.mem_filter, decide_eq_true_eq] at hid ⊢
    obtain ⟨e, ⟨he, hcap⟩, rfl⟩ := hid
    obtain ⟨c', hc', hid, hhere, -, hcap', -⟩ := h.delivered.row e he
    exact ⟨c', ⟨hc', hhere, hcap'.symm.trans hcap⟩, hid⟩
  have hperm := (List.Nodup.subperm hnodup hsub).perm_of_length_le (by
    rw [List.length_map, List.length_map]
    exact hcount.ge)
  have hmem : c.credentialId ∈ (copies.filter fun c' ↦
      home.IsBehind crypto capability c'.target).map MemberCopy.credentialId :=
    List.mem_map_of_mem (List.mem_filter.mpr ⟨hc, by simpa using ⟨hlocal, hcapability.symm⟩⟩)
  obtain ⟨e, he, hid⟩ := List.mem_map.mp (hperm.mem_iff.mpr hmem)
  exact hid ▸ List.mem_map_of_mem (List.mem_filter.mp he).1

/-- The copies of a row reach all members if and only if the capabilities admit them. -/
theorem DeliveredRow.copiesSent_of_admits
    (h : DeliveredRow crypto groups groups' home home' groupId g row copies rows queue)
    (hadmits : home.Admits crypto g) : CopiesSent crypto remote groups groups' home home' := by
  have hnew : NewRow groups groups' groupId g row := (h.new _ _ _).mpr ⟨rfl, rfl, rfl⟩
  set tag : Key → CopyTag := fun c ↦ ⟨groupId, row.seq, c⟩ with htag
  have hinjective : Function.Injective tag := fun c c' heq ↦ congrArg CopyTag.credentialId heq
  refine ⟨rows.map (Prod.map tag id), queue.map (Prod.map tag id), ?_, ?_, fun e he ↦ ?_,
    fun e he ↦ ?_, ?_⟩
  · rw [h.delivered.appended, List.map_map]
    rfl
  · rw [h.delivered.outbound, List.map_map]
    rfl
  · obtain ⟨source, hsource, rfl⟩ := List.mem_map.mp he
    obtain ⟨c, hc, hid, hlocal, hmailbox, -, outer, hseal, hopen⟩ := h.delivered.row source hsource
    exact ⟨c.target, outer, ⟨g, row, c.draw, hnew, rfl, h.member.mpr ⟨c, hc, hid, rfl⟩, hseal⟩,
      hlocal, hmailbox, hopen⟩
  · obtain ⟨source, hsource, rfl⟩ := List.mem_map.mp he
    obtain ⟨c, hc, hid, hremote, hdest, hseal⟩ := h.delivered.queued source hsource
    exact ⟨c.target, ⟨g, row, c.draw, hnew, rfl, h.member.mpr ⟨c, hc, hid, rfl⟩, hseal⟩, hremote,
      hdest⟩
  · intro groupId' g' row' c target hrow hmember hdue
    obtain ⟨rfl, rfl, rfl⟩ := (h.new _ _ _).mp hrow
    have hmap : (rows.map (Prod.map tag id)).map Prod.fst ++ (queue.map (Prod.map tag id)).map
        Prod.fst = (rows.map Prod.fst ++ queue.map Prod.fst).map tag := by
      simp [List.map_append, Function.comp_def]
    have hcount : ((rows.map Prod.fst ++ queue.map Prod.fst).map tag).count (tag c) =
        (rows.map Prod.fst ++ queue.map Prod.fst).count c :=
      List.count_map_of_injective _ tag hinjective c
    obtain ⟨copy, hcopy, rfl, rfl⟩ := h.member.mp hmember
    rw [hmap]
    refine hcount.trans (List.count_eq_one_of_mem h.nodup_tags (List.mem_append.mpr ?_))
    by_cases hlocal : home.IsLocal crypto copy.target
    · have hfits := hadmits _ _ hmember hlocal (hdue.here hlocal)
      rw [h.countP_behind] at hfits
      exact .inl (h.mem_rows hcopy hlocal (hdue.here hlocal) hfits)
    · rw [h.delivered.queuedOnce]
      exact .inr (List.mem_map_of_mem (List.mem_filter.mpr ⟨hcopy, by simpa using hlocal⟩))

/-- Copies that reach all members were admitted. -/
theorem DeliveredRow.admits_of_copiesSent {encap : Key → Key}
    (h : DeliveredRow crypto groups groups' home home' groupId g row copies rows queue)
    (hopens : crypto.Opens home.hpke encap) (htype : row.type.isAttachment = false)
    (hsent : CopiesSent crypto remote groups groups' home home') : home.Admits crypto g := by
  obtain ⟨rows', queue', happended, -, hrows, hqueue, hcount⟩ := hsent
  intro c target hmember hlocal hlive
  set capability := target.deliveryCapability with hcapability
  have hnew : NewRow groups groups' groupId g row := (h.new _ _ _).mpr ⟨rfl, rfl, rfl⟩
  have hsame : rows'.map Prod.snd = rows.map Prod.snd :=
    List.append_cancel_left (happended.symm.trans h.delivered.appended)
  -- the rows with the capability, counted in both ways
  have hadmitted : rows'.countP (fun e ↦ e.2.2.inner.deliveryCapability = capability) ≤
      home.allowance capability := by
    have hboth := congrArg
      (List.countP fun e : IdentityId × StoredEnvelope ↦ e.2.inner.deliveryCapability = capability)
      hsame
    rw [List.countP_map, List.countP_map] at hboth
    calc
      _ = rows.countP fun e ↦ e.2.2.inner.deliveryCapability = capability := hboth
      _ ≤ home.allowance capability := by
        rw [h.delivered.admitted capability hlive]
        exact Nat.min_le_right _ _
  refine le_trans ?_ hadmitted
  -- every member behind the capability has such a row of its own
  rw [h.countP_behind, List.countP_eq_length_filter, List.countP_eq_length_filter]
  set behind := copies.filter fun c ↦ home.IsBehind crypto capability c.target with hbehind
  have hnodup : (behind.map fun c ↦ (⟨groupId, row.seq, c.credentialId⟩ : CopyTag)).Nodup := by
    refine List.Nodup.map_on (fun c hc c' hc' heq ↦ ?_)
      ((List.Nodup.of_map _ h.nodup).sublist List.filter_sublist)
    exact h.eq_of_id (List.mem_filter.mp hc).1 (List.mem_filter.mp hc').1
      (congrArg CopyTag.credentialId heq)
  have hsub : behind.map (fun c ↦ (⟨groupId, row.seq, c.credentialId⟩ : CopyTag)) ⊆
      (rows'.filter fun e ↦ e.2.2.inner.deliveryCapability = capability).map Prod.fst := by
    intro tag htag
    obtain ⟨copy, hcopy, rfl⟩ := List.mem_map.mp htag
    obtain ⟨hcopy, hhere⟩ := List.mem_filter.mp hcopy
    obtain ⟨hhere, hcap⟩ := of_decide_eq_true hhere
    have hcopyMember : g.LiveMember copy.credentialId copy.target :=
      h.member.mpr ⟨copy, hcopy, rfl, rfl⟩
    have hone := hcount groupId g row _ _ hnew hcopyMember
      ⟨fun _ ↦ hcap ▸ hlive, fun haway ↦ absurd hhere haway⟩
    have hmem := List.count_pos_iff.mp (hone ▸ Nat.one_pos)
    rcases List.mem_append.mp hmem with hrow | hqueued
    · obtain ⟨e, he, htag⟩ := List.mem_map.mp hrow
      obtain ⟨target', outer, ⟨g', row', draw, hnew', -, hmember', hseal⟩, -, -, hopen⟩ := hrows e he
      obtain ⟨-, rfl, rfl⟩ := (h.new _ _ _).mp hnew'
      rw [htag] at hmember'
      obtain rfl := hcopyMember.unique hmember'
      obtain ⟨-, inner, -, hinner, -, hcapability', -⟩ :=
        openOuter_sealCopy hopens htype hhere hseal
      rw [hopen] at hinner
      cases hinner
      exact List.mem_map.mpr
        ⟨e, List.mem_filter.mpr ⟨he, decide_eq_true (hcapability'.trans hcap)⟩, htag⟩
    · obtain ⟨e, he, htag⟩ := List.mem_map.mp hqueued
      obtain ⟨target', ⟨g', row', draw, hnew', -, hmember', -⟩, haway, -⟩ := hqueue e he
      obtain ⟨-, rfl, rfl⟩ := (h.new _ _ _).mp hnew'
      rw [htag] at hmember'
      rw [hcopyMember.unique hmember'] at hhere
      exact absurd hhere haway
  have hle := (List.Nodup.subperm hnodup hsub).length_le
  rwa [List.length_map, List.length_map] at hle

end Delivered

end Complete

/-! ## What an append adds -/

namespace GroupHost

variable {crypto : Crypto} {host : GroupHost} {groupId : GroupId} {cred : MemberCred}
  {type : MessageType} {body : Bytes}

/-- The row of an append. -/
def appendedRow (host : GroupHost) (g : GroupState) (type : MessageType) (body : Bytes) : StreamRow :=
  { seq := g.nextSeq, type, body, receivedAt := host.now }

/-- What passes the checks and fits the cap becomes a row of the stream. -/
def Adds (crypto : Crypto) (host : GroupHost) (groupId : GroupId) (cred : MemberCred)
    (type : MessageType) (body : Bytes) (g : GroupState) : Prop :=
  host.authorizeLive crypto groupId cred = .ok () ∧
    host.ChecksPass crypto groupId cred body type ∧
      saturatingAdd g.bytes body.length ≤ streamMaxBytes

/-- The streams of two hosts are the same. -/
def KeepsStreams (host host' : GroupHost) : Prop :=
  ∀ id, (host'.groups.lookup id).map GroupState.stream =
    (host.groups.lookup id).map GroupState.stream

theorem KeepsStreams.not_newRow {host' : GroupHost} (h : host.KeepsStreams host') {id : GroupId}
    {g : GroupState} {row : StreamRow} : ¬ NewRow host host' id g row := by
  rintro ⟨hold, g', rows, hnew, hstream, hrow⟩
  have hsame := h id
  rw [hold, hnew, Option.map_some, Option.map_some, Option.some_inj, hstream,
    List.append_right_eq_self] at hsame
  rw [hsame] at hrow
  cases hrow

/-- The one row that is pushed is the one new row. -/
theorem newRow_iff {after host' : GroupHost} {g g' : GroupState} {row : StreamRow}
    (hwrite : host.Rewrites after groupId g g') (hstream : g'.stream = g.stream ++ [row])
    (hsame : after.KeepsStreams host') (id : GroupId) (old : GroupState) (new : StreamRow) :
    NewRow host host' id old new ↔ id = groupId ∧ old = g ∧ new = row := by
  have hkept := hsame id
  constructor
  · rintro ⟨hold, g'', rows, hnew, hrows, hmem⟩
    rw [hnew, Option.map_some] at hkept
    by_cases hid : id = groupId
    · subst hid
      rw [hwrite.old] at hold
      cases hold
      rw [hwrite.new, Option.map_some, Option.some_inj, hrows, hstream,
        List.append_cancel_left_eq] at hkept
      rw [hkept, List.mem_singleton] at hmem
      exact ⟨rfl, rfl, hmem⟩
    · rw [hwrite.others id hid, hold, Option.map_some, Option.some_inj, hrows,
        List.append_right_eq_self] at hkept
      rw [hkept] at hmem
      cases hmem
  · rintro ⟨rfl, rfl, rfl⟩
    rw [hwrite.new, Option.map_some] at hkept
    obtain ⟨g'', hnew, heq⟩ := Option.map_eq_some_iff.mp hkept
    exact ⟨hwrite.old, g'', [new], hnew, heq.trans hstream, List.mem_singleton_self _⟩

/-- The group `fanout_copy` sees has the counters, the stream and the targets of the group before. -/
theorem readied_members (hpass : host.ChecksPass crypto groupId cred body type) {g : GroupState}
    (hg : host.groups.lookup groupId = some g) :
    ∃ ready, host.Rewrites (host.readied groupId cred body type) groupId g ready ∧
      (host.readied groupId cred body type).now = host.now ∧ ready.nextSeq = g.nextSeq ∧
      ready.bytes = g.bytes ∧ ready.stream = g.stream ∧
      (membersWithTarget ready).Perm (membersWithTarget g) := by
  rcases readied_group hpass hg with ⟨-, heq⟩ | ⟨replace, record, -, -, hrecord, heq⟩ <;> rw [heq]
  · exact ⟨g, ⟨hg, hg, fun _ _ ↦ rfl⟩, rfl, rfl, rfl, rfl, .refl _⟩
  · refine ⟨_, (rewrites_putGroup hg _).of_groups rfl, rfl, rfl, rfl, rfl, ?_⟩
    refine (List.perm_ext_iff_of_nodup (.of_map _ (nodup_membersWithTarget _))
      (.of_map _ (nodup_membersWithTarget _))).mpr ?_
    rintro ⟨c, target⟩
    rw [mem_membersWithTarget, mem_membersWithTarget]
    dsimp only
    rw [FiniteMap.lookup_insert_ite]
    split_ifs with hc
    · subst hc
      rw [hrecord]
      simp
    · rfl

/-- What `settled` still writes leaves the streams alone. -/
theorem settled_streams (after : GroupHost) (now : ℕ) :
    after.KeepsStreams (after.settled now groupId cred body type) := by
  intro id
  cases type with
  | removeBundle =>
    dsimp only [settled]
    split
    · rfl
    · unfold modifyCred
      split
      · rfl
      · rename_i g hg
        split
        · rfl
        · rw [markCred, putGroup]
          dsimp only
          rw [FiniteMap.lookup_insert_ite]
          split_ifs with hid
          · rw [hid, hg]
            rfl
          · rfl
  | attachmentReserve =>
    dsimp only [settled]
    split <;> rfl
  | doubleRatchet | mlsApp | attachmentDr | signingKeyReplace | revocationStatement |
    mlsHandshake => rfl

/-- An append that does not become a row leaves the streams alone. -/
theorem append_skips (draws : ℕ → Key × Key)
    (h : ∀ g, host.groups.lookup groupId = some g → ¬ host.Adds crypto groupId cred type body g) :
    ∃ e host', host.append crypto groupId cred type body draws = (.error e, host') ∧
      host.KeepsStreams host' := by
  by_cases hpasses : host.authorizeLive crypto groupId cred = .ok () ∧
      host.ChecksPass crypto groupId cred body type
  · obtain ⟨hlive, hpass⟩ := hpasses
    obtain ⟨g, hg⟩ := exists_group_of_authorizeLive crypto hlive
    have hfull : ¬ saturatingAdd g.bytes body.length ≤ streamMaxBytes := fun hfits ↦
      h g hg ⟨hlive, hpass, hfits⟩
    obtain ⟨ready, hwrite, -, -, hbytes, hstream, -⟩ := readied_members hpass hg
    refine ⟨.denied, host.readied groupId cred body type, ?_, fun id ↦ ?_⟩
    · rw [append_passed draws hlive hpass, fanoutCopy_of_group crypto hwrite.new, hbytes,
        if_pos (Nat.lt_of_not_le hfull)]
    · by_cases hid : id = groupId
      · rw [hid, hwrite.new, hg, Option.map_some, Option.map_some, hstream]
      · rw [hwrite.others id hid]
  · obtain ⟨e, heq⟩ := append_refused draws fun hlive hpass ↦ hpasses ⟨hlive, hpass⟩
    exact ⟨e, host, heq, fun _ ↦ rfl⟩

/-- An append that becomes a row answers with the copies, if all of them can be sealed. -/
theorem append_adds (draws : ℕ → Key × Key) {g : GroupState}
    (hg : host.groups.lookup groupId = some g)
    (hadds : host.Adds crypto groupId cred type body g) :
    ∃ ready, ready.nextSeq = g.nextSeq ∧ (membersWithTarget ready).Perm (membersWithTarget g) ∧
      (∀ id g' row, NewRow host (host.append crypto groupId cred type body draws).2 id g' row ↔
        id = groupId ∧ g' = g ∧ row = host.appendedRow g type body) ∧
      (host.append crypto groupId cred type body draws).1 =
        match sealCopies crypto ready type body draws with
        | .error e => .error (.wire e)
        | .ok outers => .ok { seq := g.nextSeq, outers } := by
  obtain ⟨hlive, hpass, hfits⟩ := hadds
  obtain ⟨ready, hwrite, hnow, hnext, hbytes, hstream, hmembers⟩ := readied_members hpass hg
  have hpushed := rewrites_pushRow hwrite type body
  refine ⟨ready, hnext, hmembers, ?_, ?_⟩
  · have hsame : ((host.readied groupId cred body type).pushRow groupId ready type body).KeepsStreams
        (host.append crypto groupId cred type body draws).2 := by
      rw [append_passed draws hlive hpass, fanoutCopy_of_group crypto hwrite.new, hbytes,
        if_neg (Nat.not_lt.mpr hfits)]
      split
      · rename_i heq
        split at heq <;> cases heq
        exact fun _ ↦ rfl
      · rename_i heq
        split at heq <;> cases heq
        exact settled_streams _ _
    refine newRow_iff hpushed ?_ hsame
    dsimp only
    rw [hstream, hnext, hnow]
    rfl
  · rw [append_passed draws hlive hpass, fanoutCopy_of_group crypto hwrite.new, hbytes,
      if_neg (Nat.not_lt.mpr hfits), hnext]
    cases sealCopies crypto ready type body draws <;> rfl

/-- A row that fits the cap is in the stream, whatever becomes of its copies. -/
theorem fanoutCopy_pushes {draws : ℕ → Key × Key} {g : GroupState}
    (hg : host.groups.lookup groupId = some g)
    (hfits : saturatingAdd g.bytes body.length ≤ streamMaxBytes) :
    (host.fanoutCopy crypto groupId type body draws).2 = host.pushRow groupId g type body := by
  rw [fanoutCopy_of_group crypto hg, if_neg (Nat.not_lt.mpr hfits)]
  split <;> rfl

theorem canCopy_congr {usable : Key → Prop} {g g' : GroupState}
    (h : (membersWithTarget g').Perm (membersWithTarget g)) :
    CanCopy usable g' body ↔ CanCopy usable g body := by
  unfold CanCopy
  rw [← map_snd_membersWithTarget, ← map_snd_membersWithTarget]
  simp only [(h.map Prod.snd).mem_iff]

end GroupHost

/-! ## Appends -/

section Append

variable {crypto : Crypto} {usable : Key → Prop} {remote : FanoutTarget → Prop} {host host' : GroupHost}
  {home home' : HomeServer} {req : AppendRequest} {draws : ℕ → Key × Key}

/-- When the row of a request can be copied, the capabilities of this server admit the copies; when
it cannot, no member waits for one. -/
def AppendRequest.Reaches (crypto : Crypto) (usable : Key → Prop) (remote : FanoutTarget → Prop)
    (host : GroupHost) (home : HomeServer) (req : AppendRequest) : Prop :=
  ∀ g, host.groups.lookup req.groupId = some g →
    host.Adds crypto req.groupId req.cred req.type req.body g →
      (GroupHost.CanCopy usable g req.body → home.Admits crypto g) ∧
      (¬ GroupHost.CanCopy usable g req.body → ∀ c target, g.LiveMember c target →
        ¬ home.Due crypto remote target)

theorem GroupHost.Adds.isAttachment {groupId : GroupId} {cred : MemberCred} {type : MessageType}
    {body : Bytes} {g : GroupState} (h : host.Adds crypto groupId cred type body g) :
    type.isAttachment = false := by
  obtain ⟨-, hpass, -⟩ := h
  cases type with
  | attachmentDr => cases hpass
  | _ => rfl

/-- Where no stream changes and nothing is sent, nobody is missed. -/
theorem copiesSent_of_keepsStreams (hsame : host.KeepsStreams host')
    (happended : home'.history.appended = home.history.appended)
    (houtbound : home'.outbound = home.outbound) :
    CopiesSent crypto remote host host' home home' :=
  (copiesSent_iff_of_none happended houtbound).mpr fun _ _ _ _ _ hnew ↦ absurd hnew hsame.not_newRow

/-- A failed append sends nothing. -/
theorem AppendRequest.copiesSent_iff_of_error (hseals : crypto.SealsByKey usable) {e : ServerError}
    (h : host.append crypto req.groupId req.cred req.type req.body draws = (.error e, host'))
    (happended : home'.history.appended = home.history.appended)
    (houtbound : home'.outbound = home.outbound) :
    CopiesSent crypto remote host host' home home' ↔
      req.Reaches crypto usable remote host home := by
  by_cases hadds : ∃ g, host.groups.lookup req.groupId = some g ∧
      host.Adds crypto req.groupId req.cred req.type req.body g
  · obtain ⟨g, hg, hadds⟩ := hadds
    obtain ⟨ready, -, hmembers, hnew, hanswer⟩ := GroupHost.append_adds draws hg hadds
    rw [h] at hnew hanswer
    have hstuck : ¬ GroupHost.CanCopy usable g req.body := by
      rw [← GroupHost.canCopy_congr hmembers,
        ← GroupHost.exists_sealCopies_iff crypto hseals hadds.isAttachment ready req.body draws]
      rintro ⟨outers, houters⟩
      rw [houters] at hanswer
      cases hanswer
    rw [copiesSent_iff_of_none happended houtbound]
    constructor
    · intro hnobody g' hg' _
      rw [hg] at hg'
      cases hg'
      refine ⟨fun hcan ↦ absurd hcan hstuck, fun _ c target hmember ↦ ?_⟩
      exact hnobody _ _ _ c target ((hnew _ _ _).mpr ⟨rfl, rfl, rfl⟩) hmember
    · intro hreaches groupId g' row c target hrow hmember
      obtain ⟨-, rfl, -⟩ := (hnew _ _ _).mp hrow
      exact (hreaches g' hg hadds).2 hstuck c target hmember
  · obtain ⟨e', after, heq, hsame⟩ := GroupHost.append_skips draws fun g hg hadd ↦ hadds ⟨g, hg, hadd⟩
    rw [h] at heq
    cases heq
    exact ⟨fun _ g hg hadd ↦ absurd ⟨g, hg, hadd⟩ hadds,
      fun _ ↦ copiesSent_of_keepsStreams hsame happended houtbound⟩

/-- A successful append sends the copies through the capabilities. -/
theorem AppendRequest.copiesSent_iff_of_ok (hseals : crypto.SealsByKey usable) {encap : Key → Key}
    (hopens : crypto.Opens home.hpke encap)
    (hfresh : ∀ g, host.groups.lookup req.groupId = some g →
      FreshDraws encap home (GroupHost.membersWithTarget g).length draws) {out : StreamAppend}
    (h : host.append crypto req.groupId req.cred req.type req.body draws = (.ok out, host')) :
    CopiesSent crypto remote host host' home (home.enqueueAll crypto out.outers) ↔
      req.Reaches crypto usable remote host home := by
  obtain ⟨g, hg, hadds⟩ : ∃ g, host.groups.lookup req.groupId = some g ∧
      host.Adds crypto req.groupId req.cred req.type req.body g := by
    by_contra hadds
    obtain ⟨e, after, heq, -⟩ := GroupHost.append_skips draws fun g hg hadd ↦ hadds ⟨g, hg, hadd⟩
    rw [h] at heq
    cases heq
  obtain ⟨ready, -, hmembers, hnew, hanswer⟩ := GroupHost.append_adds draws hg hadds
  rw [h] at hnew hanswer
  obtain ⟨outers, houters, hout⟩ : ∃ outers,
      GroupHost.sealCopies crypto ready req.type req.body draws = .ok outers ∧
        out.outers = outers := by
    cases hsealed : GroupHost.sealCopies crypto ready req.type req.body draws with
    | error e =>
      rw [hsealed] at hanswer
      cases hanswer
    | ok outers =>
      rw [hsealed] at hanswer
      cases hanswer
      exact ⟨outers, rfl, rfl⟩
  subst hout
  have hcan : GroupHost.CanCopy usable g req.body := by
    rw [← GroupHost.canCopy_congr hmembers,
      ← GroupHost.exists_sealCopies_iff crypto hseals hadds.isAttachment ready req.body draws]
    exact ⟨_, houters⟩
  have hfreshCopies : MemberCopy.Fresh encap home (ready.copies draws) :=
    GroupState.fresh_copies (hmembers.length_eq ▸ hfresh g hg)
  obtain ⟨rows, queue, hdelivered⟩ := delivered_enqueueAll hopens hadds.isAttachment hfreshCopies
    (GroupHost.forall₂_copies houters)
  have hrow : DeliveredRow crypto host host' home (home.enqueueAll crypto out.outers) req.groupId g
      (host.appendedRow g req.type req.body) (ready.copies draws) rows queue :=
    ⟨hnew, by rwa [ready.map_copies], hdelivered⟩
  constructor
  · intro hsent g' hg' _
    rw [hg] at hg'
    cases hg'
    exact ⟨fun _ ↦ hrow.admits_of_copiesSent hopens hadds.isAttachment hsent,
      fun hstuck ↦ absurd hcan hstuck⟩
  · intro hreaches
    exact hrow.copiesSent_of_admits ((hreaches g hg hadds).1 hcan)

end Append

/-! ## Revocations -/

section Revocation

variable (crypto : Crypto) (stmt : RevocationStatement)

/-- Whether a group still takes the statement. -/
def RevocationStatement.Fits (stmt : RevocationStatement) (g : GroupState) : Prop :=
  saturatingAdd g.bytes stmt.encode.length ≤ streamMaxBytes

/-- The host's own append adds a row to one group. -/
theorem GroupHost.appendHostRevocation_stream (host : GroupHost) (groupId : GroupId)
    (draws : ℕ → Key × Key) {id : GroupId} {g : GroupState} (hg : host.groups.lookup id = some g) :
    ∃ g' rows, (host.appendHostRevocation crypto groupId stmt draws).2.groups.lookup id = some g' ∧
      g'.stream = g.stream ++ rows ∧ (rows ≠ [] ↔ id = groupId ∧ RevocationStatement.Fits stmt g) ∧
      (id ≠ groupId ∨ ¬ RevocationStatement.Fits stmt g → g' = g) := by
  unfold appendHostRevocation
  split
  · rename_i hnone
    refine ⟨g, [], hg, (List.append_nil _).symm, ?_, fun _ ↦ rfl⟩
    have hother : id ≠ groupId := by
      rintro rfl
      rw [hg] at hnone
      cases hnone
    simp [hother]
  · rename_i hsome
    rw [Option.isNone_iff_eq_none] at hsome
    obtain ⟨old, hold⟩ := Option.ne_none_iff_exists'.mp hsome
    by_cases hfits : RevocationStatement.Fits stmt old
    · rw [fanoutCopy_pushes hold hfits, pushRow]
      dsimp only
      rw [FiniteMap.lookup_insert_ite]
      split_ifs with hid
      · subst hid
        rw [hold] at hg
        cases hg
        exact ⟨_, _, rfl, rfl, by simp [hfits], by simp [hfits]⟩
      · exact ⟨g, [], hg, (List.append_nil _).symm, by simp [hid], fun _ ↦ rfl⟩
    · rw [fanoutCopy_of_group crypto hold, if_pos (Nat.lt_of_not_le hfits)]
      refine ⟨g, [], hg, (List.append_nil _).symm, ?_, fun _ ↦ rfl⟩
      have hfull : ¬ (id = groupId ∧ RevocationStatement.Fits stmt g) := by
        rintro ⟨rfl, hfits'⟩
        rw [hold] at hg
        cases hg
        exact hfits hfits'
      simp only [ne_eq, not_true_eq_false, false_iff]
      exact hfull

/-- The loop of a revocation adds a row to each group that takes the statement. -/
theorem GroupHost.appendRevocations_stream (draws : ℕ → ℕ → Key × Key) (ids : List GroupId) (n : ℕ)
    (host : GroupHost) {id : GroupId} {g : GroupState} (hg : host.groups.lookup id = some g) :
    ∃ g' rows, ((ids.zipIdx n).foldl (fun host id ↦
        (host.appendHostRevocation crypto id.1 stmt (draws id.2)).2) host).groups.lookup id = some g' ∧
      g'.stream = g.stream ++ rows ∧ (rows ≠ [] ↔ id ∈ ids ∧ RevocationStatement.Fits stmt g) := by
  induction ids generalizing host n g with
  | nil => exact ⟨g, [], hg, (List.append_nil _).symm, by simp⟩
  | cons groupId ids ih =>
    obtain ⟨mid, rows, hmid, hrows, hnonempty, hsame⟩ :=
      host.appendHostRevocation_stream crypto stmt groupId (draws n) hg
    obtain ⟨g', rows', hg', hrows', hnonempty'⟩ := ih (n + 1) _ hmid
    refine ⟨g', rows ++ rows', hg', by rw [hrows', hrows, List.append_assoc], ?_⟩
    by_cases hhit : id = groupId ∧ RevocationStatement.Fits stmt g
    · have hadded := hnonempty.mpr hhit
      constructor
      · exact fun _ ↦ ⟨hhit.1 ▸ List.mem_cons_self, hhit.2⟩
      · exact fun _ hnil ↦ hadded (List.append_eq_nil_iff.mp hnil).1
    · have hkept : rows = [] := by
        by_contra hadded
        exact hhit (hnonempty.mp hadded)
      rw [hsame (not_and_or.mp hhit)] at hnonempty'
      rw [hkept, List.nil_append, hnonempty', List.mem_cons]
      constructor
      · exact fun hrest ↦ ⟨.inr hrest.1, hrest.2⟩
      · rintro ⟨hid | hrest, hfits⟩
        · exact absurd ⟨hid, hfits⟩ hhit
        · exact ⟨hrest, hfits⟩

/-- The rows of a revocation are new in the groups that take the statement. -/
theorem newRow_appendRevocations_iff (draws : ℕ → ℕ → Key × Key) (ids : List GroupId)
    (host : GroupHost) {id : GroupId} {g : GroupState} :
    (∃ row, NewRow host (host.appendRevocations crypto stmt draws ids) id g row) ↔
      host.groups.lookup id = some g ∧ id ∈ ids ∧ RevocationStatement.Fits stmt g := by
  constructor
  · rintro ⟨row, hg, g', rows, hg', hrows, hrow⟩
    obtain ⟨g'', rows', hg'', hrows', hnonempty⟩ :=
      host.appendRevocations_stream crypto stmt draws ids 0 hg
    unfold GroupHost.appendRevocations at hg'
    rw [hg'] at hg''
    cases hg''
    rw [hrows, List.append_cancel_left_eq] at hrows'
    refine ⟨hg, hnonempty.mp ?_⟩
    rintro rfl
    rw [hrows'] at hrow
    cases hrow
  · rintro ⟨hg, hmem⟩
    obtain ⟨g', rows, hg', hrows, hnonempty⟩ :=
      host.appendRevocations_stream crypto stmt draws ids 0 hg
    obtain ⟨row, hrow⟩ := List.exists_mem_of_ne_nil _ (hnonempty.mpr hmem)
    exact ⟨row, hg, g', rows, hg', hrows, hrow⟩

/-- No member waits for a copy of the row a revocation adds. -/
def RevocationStatement.Reaches (crypto : Crypto) (remote : FanoutTarget → Prop) (groups : GroupHost)
    (home : HomeServer) (stmt : RevocationStatement) (ids : List GroupId) : Prop :=
  ∀ id ∈ ids, ∀ g, groups.groups.lookup id = some g → RevocationStatement.Fits stmt g →
    ∀ c target, g.LiveMember c target → ¬ home.Due crypto remote target

/-- A revocation sends nothing; `home` is the home server that has taken in the statement. -/
theorem copiesSent_revocation_iff (remote : FanoutTarget → Prop) (clock : UInt64 × UInt64)
    (draws : ℕ → ℕ → Key × Key) {body : Bytes} (st : AppState)
    (hdecode : RevocationStatement.decode body = .ok stmt) {ids : List GroupId} {home : HomeServer}
    (hingest : { st.home with now := clock.1.toNat }.ingestRevocation crypto stmt =
      (.ok ids, home)) :
    CopiesSent crypto remote st.groups (revocation crypto clock draws body st).2.groups home
        (revocation crypto clock draws body st).2.home ↔
      RevocationStatement.Reaches crypto remote st.groups home stmt ids := by
  set host : GroupHost := { st.groups with now := clock.2.toNat } with hhost
  have hresult : (revocation crypto clock draws body st).2 =
      { home, groups := host.appendRevocations crypto stmt draws ids } := by
    unfold revocation
    rw [hdecode]
    dsimp only
    rw [hingest]
  rw [hresult, copiesSent_iff_of_none rfl rfl]
  have hnew (id : GroupId) (g : GroupState) :
      (∃ row, NewRow st.groups (host.appendRevocations crypto stmt draws ids) id g row) ↔
        st.groups.groups.lookup id = some g ∧ id ∈ ids ∧ RevocationStatement.Fits stmt g :=
    newRow_appendRevocations_iff crypto stmt draws ids host
  constructor
  · intro hnobody id hid g hg hfits c target hmember
    obtain ⟨row, hrow⟩ := (hnew id g).mpr ⟨hg, hid, hfits⟩
    exact hnobody id g row c target hrow hmember
  · intro hreaches id g row c target hrow hmember
    obtain ⟨hg, hid, hfits⟩ := (hnew id g).mp ⟨row, hrow⟩
    exact hreaches id hid g hg hfits c target hmember

end Revocation

/-! ## Both requests -/

/-- Members get the rows an append adds exactly when its copies can be sealed and the capabilities of
this server admit them, or when no member is waiting; they get the rows of a revocation exactly when
no member is waiting. -/
theorem copiesSent_iff (crypto : Crypto) {usable : Key → Prop} (hseals : crypto.SealsByKey usable)
    {encap : Key → Key} (remote : FanoutTarget → Prop) (clock : UInt64 × UInt64)
    (draws : ℕ → Key × Key) (id body : Bytes) (st : AppState)
    (hopens : crypto.Opens st.home.hpke encap)
    (hfresh : ∀ req g, AppendRequest.read id body = some req →
      st.groups.groups.lookup req.groupId = some g →
        FreshDraws encap st.home (GroupHost.membersWithTarget g).length draws)
    (revocationDraws : ℕ → ℕ → Key × Key) (revocationBody : Bytes) :
    (CopiesSent crypto remote st.groups (groupAppend crypto clock draws id body st).2.groups
        { st.home with now := clock.2.toNat } (groupAppend crypto clock draws id body st).2.home ↔
      ∀ req, AppendRequest.read id body = some req → req.Reaches crypto usable remote
        { st.groups with now := clock.1.toNat } { st.home with now := clock.2.toNat }) ∧
    ∀ stmt ids home, RevocationStatement.decode revocationBody = .ok stmt →
      { st.home with now := clock.1.toNat }.ingestRevocation crypto stmt = (.ok ids, home) →
        (CopiesSent crypto remote st.groups
            (revocation crypto clock revocationDraws revocationBody st).2.groups home
            (revocation crypto clock revocationDraws revocationBody st).2.home ↔
          RevocationStatement.Reaches crypto remote st.groups home stmt ids) := by
  refine ⟨?_, fun stmt ids home hdecode hingest ↦ copiesSent_revocation_iff crypto stmt remote clock
    revocationDraws st hdecode hingest⟩
  cases hread : AppendRequest.read id body with
  | none =>
    have hsame : (groupAppend crypto clock draws id body st).2 = st := by
      unfold groupAppend
      rw [hread]
    rw [hsame]
    exact ⟨nofun, fun _ ↦ copiesSent_of_keepsStreams (fun _ ↦ rfl) rfl rfl⟩
  | some req =>
    have hreaches (host : GroupHost) (home : HomeServer) :
        (∀ req', some req = some req' → req'.Reaches crypto usable remote host home) ↔
          req.Reaches crypto usable remote host home :=
      ⟨fun h ↦ h req rfl, fun h _ heq ↦ Option.some.inj heq ▸ h⟩
    rw [hreaches]
    set host : GroupHost := { st.groups with now := clock.1.toNat } with hhost
    cases happend : host.append crypto req.groupId req.cred req.type req.body draws with
    | mk result host' =>
      cases result with
      | error e =>
        have hresult : (groupAppend crypto clock draws id body st).2 =
            { st with groups := host' } := by
          unfold groupAppend AppendRequest.appendRow
          rw [hread]
          dsimp only
          rw [happend]
        rw [hresult]
        exact AppendRequest.copiesSent_iff_of_error hseals happend rfl rfl
      | ok out =>
        have hresult : (groupAppend crypto clock draws id body st).2 =
            { home := st.home.deliverCopies crypto clock.2 out.outers, groups := host' } := by
          unfold groupAppend AppendRequest.appendRow
          rw [hread]
          dsimp only
          rw [happend]
        rw [hresult]
        set home : HomeServer := { st.home with now := clock.2.toNat } with hhome
        have hopensNow : crypto.Opens home.hpke encap := hopens
        refine AppendRequest.copiesSent_iff_of_ok hseals hopensNow (fun g hg ↦ ?_) happend
        obtain ⟨hencs, htokens, hunseen, hunknown⟩ := hfresh req g hread hg
        exact ⟨hencs, htokens, hunseen, hunknown⟩

theorem opens_transparent (keys : HpkeKeypair) : Crypto.transparent.Opens keys (fun key ↦ key) where
  opens entropy recipient aad plaintext ciphertext h := by
    cases h
    exact ⟨plaintext, rfl, fun _ ↦ rfl⟩
  id key h := by
    have hfirst (key : Key) : (key.data ++ List.replicate 32 0).take 32 = key.data :=
      List.take_left' (by simp)
    have hdata : (key.data ++ List.replicate 32 0).take 32 =
        (keys.publicKey.data ++ List.replicate 32 0).take 32 := congrArg FixedBytes.data h
    rw [hfirst, hfirst] at hdata
    exact FixedBytes.ext_data hdata

/-- A server with two mailboxes, of which the first is the only member of a group and the second is
recorded as a member. -/
def AppState.pair (key other : Key) : AppState where
  home := run (HomeOp.apply .transparent) (HomeServer.new .transparent ⟨key, key⟩ key)
    [.register key key, .mintContactCapability key key,
      .registerFromCard
        { identityPublicKey := other
          revocationPublicKey := other
          shareToken := other
          binding :=
            { serverId := key
              serverHpkePublicKey := key
              host := ⟨"local", Text.local_size⟩
              seq := 1
              expiresAt := 1700000000
              signature := .replicate 64 0 } },
      .noteGroupMembership other ⟨key⟩]
  groups := GroupHost.single key

set_option maxRecDepth 100000 in
/-- An append to that group is sent to its member. -/
theorem copiesSent_of_append :
    let key : Key := .replicate 32 7
    let other : Key := .replicate 32 8
    let st := AppState.pair key other
    let id : Bytes := (List.replicate 32 [0x30, 0x37]).flatten
    let body : Bytes := Cbor.encode (.map [(0, .bytes key.data), (1, .bytes key.data), (2, .uint 2),
      (3, .bytes [1])])
    let st' := (groupAppend .transparent (1700000000, 1700000000) (fun _ ↦ (other, other)) id body
      st).2
    st'.home.history.appended.length = 1 ∧
      CopiesSent .transparent (fun _ ↦ True) st.groups st'.groups
        { st.home with now := (1700000000 : UInt64).toNat } st'.home := by
  intro key other st id body st'
  refine ⟨by decide +kernel, ?_⟩
  have hseals : Crypto.transparent.SealsByKey fun _ ↦ True :=
    fun _ _ _ _ ↦ ⟨fun _ ↦ trivial, fun _ ↦ ⟨_, rfl⟩⟩
  have hmembers : ∀ e ∈ st.groups.groups.entries,
      (GroupHost.membersWithTarget e.2).length = 1 ∧ ∀ m ∈ GroupHost.membersWithTarget e.2,
        (GroupHost.membersWithTarget e.2).countP
          (fun m' ↦ HomeServer.IsBehind .transparent { st.home with now := 1700000000 }
            m.2.deliveryCapability m'.2) ≤
          HomeServer.allowance { st.home with now := 1700000000 } m.2.deliveryCapability := by
    decide +kernel
  have hunseen : st.home.seenEnc.lookup other = none := by decide +kernel
  have hunknown : ∀ e ∈ st.home.mailboxes.entries, e.2.idempotency.lookup other = none := by
    decide +kernel
  have hbody : (AppendRequest.read id body).map (fun req ↦ req.body.length) = some 1 := by
    decide +kernel
  have hfresh : ∀ req g, AppendRequest.read id body = some req →
      st.groups.groups.lookup req.groupId = some g →
        FreshDraws (fun key ↦ key) st.home (GroupHost.membersWithTarget g).length
          fun _ ↦ (other, other) := by
    intro req g _ hg
    rw [(hmembers _ (FiniteMap.lookup_eq_some_iff.mp hg)).1]
    refine ⟨fun i hi j hj _ ↦ by omega, fun i hi j hj _ ↦ by omega, fun _ _ ↦ hunseen, ?_⟩
    exact fun _ _ m box hbox ↦ hunknown _ (FiniteMap.lookup_eq_some_iff.mp hbox)
  refine (copiesSent_iff .transparent hseals (fun _ ↦ True) (1700000000, 1700000000)
    (fun _ ↦ (other, other)) id body st (opens_transparent _) hfresh
    (fun _ _ ↦ (other, other)) []).1.mpr ?_
  intro req hread g hg _
  rw [hread, Option.map_some, Option.some_inj] at hbody
  refine ⟨fun _ c target hmember _ _ ↦ ?_, fun hstuck ↦ absurd ?_ hstuck⟩
  · exact (hmembers _ (FiniteMap.lookup_eq_some_iff.mp hg)).2 (c, target)
      (GroupHost.mem_membersWithTarget.mpr hmember)
  · intro target _
    exact ⟨by rw [hbody, t3]; omega, trivial⟩

/-- A member that waits is missed. -/
theorem not_copiesSent_revocation {crypto : Crypto} {stmt : RevocationStatement} {body : Bytes}
    (clock : UInt64 × UInt64) (draws : ℕ → ℕ → Key × Key) (st : AppState) {home : HomeServer}
    (hhome : home = ({ st.home with now := clock.1.toNat }.ingestRevocation crypto stmt).2)
    {ids : List GroupId} (hdecode : (RevocationStatement.decode body).toOption = some stmt)
    (hids : ({ st.home with now := clock.1.toNat }.ingestRevocation crypto stmt).1.toOption =
      some ids)
    (hwaits : ∃ e ∈ st.groups.groups.entries, e.1 ∈ ids ∧
      saturatingAdd e.2.bytes stmt.encode.length ≤ streamMaxBytes ∧
        ∃ m ∈ GroupHost.membersWithTarget e.2, home.IsLocal crypto m.2 ∧
          (home.liveContact m.2.deliveryCapability).isSome) :
    ¬ CopiesSent crypto (fun _ ↦ True) st.groups (revocation crypto clock draws body st).2.groups
      home (revocation crypto clock draws body st).2.home := by
  have hdecoded : RevocationStatement.decode body = .ok stmt := by
    cases h : RevocationStatement.decode body with
    | error e =>
      rw [h] at hdecode
      cases hdecode
    | ok decoded =>
      rw [h] at hdecode
      cases hdecode
      rfl
  have hingest : { st.home with now := clock.1.toNat }.ingestRevocation crypto stmt =
      (.ok ids, home) := by
    rw [hhome]
    cases h : { st.home with now := clock.1.toNat }.ingestRevocation crypto stmt with
    | mk result after =>
      rw [h] at hids
      cases result with
      | error e => cases hids
      | ok found =>
        cases hids
        rfl
  rw [copiesSent_revocation_iff crypto stmt _ clock draws st hdecoded hingest]
  intro hreaches
  obtain ⟨e, he, hid, hfits, m, hm, hlocal, hlive⟩ := hwaits
  exact hreaches e.1 hid e.2 (FiniteMap.lookup_eq_some_iff.mpr he) hfits m.1 m.2
    (GroupHost.mem_membersWithTarget.mp hm) ⟨fun _ ↦ hlive, fun haway ↦ absurd hlocal haway⟩

set_option maxRecDepth 100000 in
/-- The member of that group is not sent the row of a revocation. -/
theorem revocation_sends_nothing :
    let key : Key := .replicate 32 7
    let other : Key := .replicate 32 8
    let st := AppState.pair key other
    let stmt : RevocationStatement := ⟨other, 1700000000, .replicate 64 0⟩
    let home := ({ st.home with now := (1700000000 : UInt64).toNat }.ingestRevocation
      .transparent stmt).2
    let st' := (revocation .transparent (1700000000, 1700000000) (fun _ _ ↦ (other, other))
      stmt.encode st).2
    ¬ CopiesSent .transparent (fun _ ↦ True) st.groups st'.groups home st'.home := by
  intro key other st stmt home st'
  have hdecode : (RevocationStatement.decode stmt.encode).toOption = some stmt := by
    decide +kernel
  have hids : ({ st.home with now := (1700000000 : UInt64).toNat }.ingestRevocation
      .transparent stmt).1.toOption = some [⟨key⟩] := by
    decide +kernel
  have hwaits : ∃ e ∈ st.groups.groups.entries, e.1 ∈ [(⟨key⟩ : GroupId)] ∧
      saturatingAdd e.2.bytes stmt.encode.length ≤ streamMaxBytes ∧
        ∃ m ∈ GroupHost.membersWithTarget e.2, home.IsLocal .transparent m.2 ∧
          (home.liveContact m.2.deliveryCapability).isSome := by
    decide +kernel
  exact not_copiesSent_revocation (1700000000, 1700000000) (fun _ _ ↦ (other, other)) st rfl
    hdecode hids hwaits

end NemoMessenger.Server
