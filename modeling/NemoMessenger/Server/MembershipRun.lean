import NemoMessenger.Server.Membership

/-!
# Runs of a group host

Over runs whose random ids are distinct, a credential becomes live by creating a group or by the one
admission of the pending join that reserved it, invites are not accepted more often than they were
stored, and a removed credential stays out for good. Rows are numbered without gaps as long as no
row is left in a stream whose copies could not be sealed.
-/

namespace NemoMessenger.Server

open NemoMessenger.Data NemoMessenger.Wire

/-! ## What the events say about a group -/

namespace GroupEvent

/-- The group an event belongs to. -/
def group : GroupEvent → GroupId
  | created groupId _ | invited groupId _ | accepted groupId .. | admitted groupId .. |
    appended groupId .. => groupId

theorem isAccepted_other {e : GroupEvent} {id : GroupId} (h : e.group ≠ id) (nonce : Key) :
    isAccepted id nonce e = false := by
  cases e with
  | accepted groupId nonce' pendingId c expiresAt =>
    have h : groupId ≠ id := h
    simp [isAccepted, h]
  | _ => rfl

theorem isInvited_other {e : GroupEvent} {id : GroupId} (h : e.group ≠ id) (nonce : Key) :
    isInvited id nonce e = false := by
  cases e with
  | invited groupId nonce' =>
    have h : groupId ≠ id := h
    simp [isInvited, h]
  | _ => rfl

theorem seqIn_other {e : GroupEvent} {id : GroupId} (h : e.group ≠ id) : seqIn id e = none := by
  cases e with
  | appended groupId type body out => exact if_neg h
  | _ => rfl

/-- Events with distinct draws that share one are the same event. -/
theorem eq_of_drawn {events : List GroupEvent} (hdistinct : (events.flatMap drawn).Nodup)
    {e e' : GroupEvent} (he : e ∈ events) (he' : e' ∈ events) (key : Key) (hkey : key ∈ e.drawn)
    (hkey' : key ∈ e'.drawn) : e = e' := by
  by_contra hne
  have : Std.Symm (Function.onFun List.Disjoint drawn) := ⟨fun _ _ h _ hb ha ↦ h ha hb⟩
  exact (List.nodup_flatMap.mp hdistinct).2.forall he he' hne hkey hkey'

end GroupEvent

open GroupEvent

/-- What a group owes to the events: where its credentials and pending joins come from, that a
reserved credential is not live, and that an invite in store is one more than were accepted. -/
structure GroupInv (events : List GroupEvent) (id : GroupId) (g : GroupState) : Prop where
  creds : ∀ c, (g.creds.lookup c).isSome → .created id c ∈ events ∨
    ∃ nonce pendingId expiresAt, .accepted id nonce pendingId c expiresAt ∈ events
  pending : ∀ pendingId p, g.pending.lookup pendingId = some p →
    (∃ nonce, .accepted id nonce pendingId p.cred.credentialId p.expiresAt ∈ events) ∧
      (∀ c, .admitted id pendingId c ∉ events) ∧
      ∀ record, g.creds.lookup p.cred.credentialId = some record → record.live = false
  invites : ∀ nonce, (g.invites.lookup nonce).isSome →
    events.countP (isAccepted id nonce) < events.countP (isInvited id nonce)

/-- What the events owe to each other. -/
structure EventInv (events : List GroupEvent) : Prop where
  admitted : ∀ id pendingId c, .admitted id pendingId c ∈ events →
    ∃ nonce expiresAt, .accepted id nonce pendingId c expiresAt ∈ events
  accepts : ∀ id nonce, events.countP (isAccepted id nonce) ≤ events.countP (isInvited id nonce)
  once : ∀ id pendingId, events.countP (isAdmitted id pendingId) ≤ 1

/-- The invariant of the runs. -/
structure GroupLog.Inv (s : GroupLog) : Prop where
  known : ∀ id g, s.host.groups.lookup id = some g → ∃ c, .created id c ∈ s.events
  groups : ∀ id g, s.host.groups.lookup id = some g → GroupInv s.events id g
  events : EventInv s.events

section Invariant

variable {crypto : Crypto} {copies : Prop} {host host' : GroupHost} {events : List GroupEvent}
  {event : Option GroupEvent}

/-- Events of other groups change nothing. -/
theorem GroupInv.other {id : GroupId} {g : GroupState} (h : GroupInv events id g)
    (hother : ∀ e ∈ event, e.group ≠ id) : GroupInv (events ++ event.toList) id g := by
  have hmem {e : GroupEvent} (he : e ∈ events) : e ∈ events ++ event.toList :=
    List.mem_append_left _ he
  refine ⟨fun c hc ↦ ?_, fun pendingId p hp ↦ ?_, fun nonce hnonce ↦ ?_⟩
  · rcases h.creds c hc with hcreated | ⟨nonce, pendingId, expiresAt, haccepted⟩
    · exact .inl (hmem hcreated)
    · exact .inr ⟨nonce, pendingId, expiresAt, hmem haccepted⟩
  · obtain ⟨⟨nonce, haccepted⟩, hnot, hrecord⟩ := h.pending pendingId p hp
    refine ⟨⟨nonce, hmem haccepted⟩, fun c hadmitted ↦ ?_, hrecord⟩
    rcases List.mem_append.mp hadmitted with hold | hnew
    · exact hnot c hold
    · exact hother _ (Option.mem_toList.mp hnew) rfl
  · have hold := h.invites nonce hnonce
    rw [List.countP_append, List.countP_append]
    cases event with
    | none => exact hold
    | some e =>
      simp only [Option.toList_some, List.countP_singleton,
        isAccepted_other (hother e rfl), isInvited_other (hother e rfl)]
      exact hold

/-- Draws of a new event are new. -/
theorem GroupEvent.not_mem_of_drawn {e e' : GroupEvent}
    (hdistinct : ((events ++ [e]).flatMap drawn).Nodup) (he' : e' ∈ events) (key : Key)
    (hkey : key ∈ e.drawn) : key ∉ e'.drawn := by
  intro hkey'
  rw [List.flatMap_append, List.nodup_append'] at hdistinct
  refine hdistinct.2.2 (List.mem_flatMap.mpr ⟨e', he', hkey'⟩) ?_
  exact List.mem_flatMap.mpr ⟨e, List.mem_singleton_self e, hkey⟩

/-- Rewriting members without touching who is live, and an event that counts for nothing. -/
theorem GroupInv.touch {id : GroupId} {g g' : GroupState} (h : GroupInv events id g)
    (hprunes : g.Prunes g')
    (hcreds : ∀ c record', g'.creds.lookup c = some record' → ∃ record, g.creds.lookup c = some record ∧
      (record.live = false → record'.live = false))
    (hcounts : ∀ e ∈ event, e.drawn = [] ∧ (∀ nonce, isAccepted id nonce e = false) ∧
      ∀ pendingId c, e ≠ .admitted id pendingId c) :
    GroupInv (events ++ event.toList) id g' := by
  have hmem {e : GroupEvent} (he : e ∈ events) : e ∈ events ++ event.toList :=
    List.mem_append_left _ he
  refine ⟨fun c hc ↦ ?_, fun pendingId p hp ↦ ?_, fun nonce hnonce ↦ ?_⟩
  · obtain ⟨record', hrecord'⟩ := Option.isSome_iff_exists.mp hc
    obtain ⟨record, hrecord, -⟩ := hcreds c record' hrecord'
    rcases h.creds c (by rw [hrecord]; rfl) with hcreated | ⟨nonce, pendingId, expiresAt, haccepted⟩
    · exact .inl (hmem hcreated)
    · exact .inr ⟨nonce, pendingId, expiresAt, hmem haccepted⟩
  · obtain ⟨⟨nonce, haccepted⟩, hnot, hrecord⟩ := h.pending pendingId p (hprunes.pending _ _ hp)
    refine ⟨⟨nonce, hmem haccepted⟩, fun c hadmitted ↦ ?_, fun record' hrecord' ↦ ?_⟩
    · rcases List.mem_append.mp hadmitted with hold | hnew
      · exact hnot c hold
      · exact (hcounts _ (Option.mem_toList.mp hnew)).2.2 pendingId c rfl
    · obtain ⟨record, hold, hkeeps⟩ := hcreds _ record' hrecord'
      exact hkeeps (hrecord record hold)
  · have hold := h.invites nonce (hprunes.invites nonce hnonce)
    rw [List.countP_append, List.countP_append]
    cases event with
    | none => exact hold
    | some e =>
      simp only [Option.toList_some, List.countP_singleton, (hcounts e rfl).2.1 nonce]
      exact hold.trans_le (Nat.le_add_right _ _)

theorem SameStanding.live {creds creds' : FiniteMap Key CredRecord}
    (h : SameStanding creds creds') {c : Key} {record' : CredRecord}
    (hrecord' : creds'.lookup c = some record') : ∃ record, creds.lookup c = some record ∧
      record.live = record'.live := by
  have hc := h c
  rw [hrecord', Option.map_some] at hc
  obtain ⟨record, hrecord, heq⟩ := Option.map_eq_some_iff.mp hc.symm
  exact ⟨record, hrecord, congrArg Prod.fst heq⟩

/-- A pending join of a group is reserved by one event and holds one credential. -/
theorem GroupInv.pending_unique {id : GroupId} {g : GroupState} (h : GroupInv events id g)
    (hdistinct : (events.flatMap drawn).Nodup) {pendingId pendingId' : Key} {p p' : PendingRecord}
    (hp : g.pending.lookup pendingId = some p) (hp' : g.pending.lookup pendingId' = some p')
    (hcred : p'.cred.credentialId = p.cred.credentialId) : pendingId' = pendingId := by
  obtain ⟨⟨nonce, haccepted⟩, -⟩ := h.pending pendingId p hp
  obtain ⟨⟨nonce', haccepted'⟩, -⟩ := h.pending pendingId' p' hp'
  have heq := eq_of_drawn hdistinct haccepted haccepted' p.cred.credentialId (by simp [drawn])
    (by simp [drawn, hcred])
  exact (GroupEvent.accepted.inj heq).2.2.1.symm

/-- An invite goes into the store. -/
theorem GroupInv.invite {id : GroupId} {g g' : GroupState} {nonce : Key} (h : GroupInv events id g)
    (hevents : EventInv events) (hcreds : g'.creds = g.creds) (hpending : g'.pending = g.pending)
    (hinvites : ∀ nonce' ≠ nonce, g'.invites.lookup nonce' = g.invites.lookup nonce') :
    GroupInv (events ++ [.invited id nonce]) id g' := by
  have hmem {e : GroupEvent} (he : e ∈ events) : e ∈ events ++ [.invited id nonce] :=
    List.mem_append_left _ he
  refine ⟨fun c hc ↦ ?_, fun pendingId p hp ↦ ?_, fun nonce' hnonce' ↦ ?_⟩
  · rw [hcreds] at hc
    rcases h.creds c hc with hcreated | ⟨nonce, pendingId, expiresAt, haccepted⟩
    · exact .inl (hmem hcreated)
    · exact .inr ⟨nonce, pendingId, expiresAt, hmem haccepted⟩
  · rw [hpending] at hp
    obtain ⟨⟨nonce', haccepted⟩, hnot, hrecord⟩ := h.pending pendingId p hp
    refine ⟨⟨nonce', hmem haccepted⟩, fun c hadmitted ↦ ?_, hcreds ▸ hrecord⟩
    rcases List.mem_append.mp hadmitted with hold | hnew
    · exact hnot c hold
    · cases List.mem_singleton.mp hnew
  · rw [List.countP_append, List.countP_append, List.countP_singleton, List.countP_singleton]
    have haccepted : isAccepted id nonce' (.invited id nonce) = false := rfl
    rw [haccepted]
    by_cases heq : nonce' = nonce
    · have hinvited : isInvited id nonce' (.invited id nonce) = true := by simp [isInvited, heq]
      rw [hinvited]
      exact Nat.lt_succ_of_le (hevents.accepts id nonce')
    · rw [hinvites nonce' heq] at hnonce'
      exact (h.invites nonce' hnonce').trans_le (Nat.le_add_right _ _)

/-- An invite turns into a pending join with a new credential. -/
theorem GroupInv.accept {id : GroupId} {g g' : GroupState} {nonce pendingId c : Key} {expiresAt : ℕ}
    {record : CredRecord} {p : PendingRecord} (h : GroupInv events id g) (hevents : EventInv events)
    (hdistinct : ((events ++ [accepted id nonce pendingId c expiresAt]).flatMap drawn).Nodup)
    (hinvites : g'.invites = g.invites.erase nonce) (hdead : record.live = false)
    (hcreds : g'.creds = g.creds.insert c record) (hcred : p.cred.credentialId = c)
    (hexpires : p.expiresAt = expiresAt) (hpending : g'.pending = g.pending.insert pendingId p) :
    GroupInv (events ++ [.accepted id nonce pendingId c expiresAt]) id g' := by
  have hmem {e : GroupEvent} (he : e ∈ events) :
      e ∈ events ++ [.accepted id nonce pendingId c expiresAt] := List.mem_append_left _ he
  have hlast : .accepted id nonce pendingId c expiresAt ∈
      events ++ [.accepted id nonce pendingId c expiresAt] :=
    List.mem_append_right _ (List.mem_singleton_self _)
  refine ⟨fun c' hc' ↦ ?_, fun pendingId' p' hp' ↦ ?_, fun nonce' hnonce' ↦ ?_⟩
  · rw [hcreds, FiniteMap.lookup_insert_ite] at hc'
    split_ifs at hc' with heq
    · rw [heq]
      exact .inr ⟨nonce, pendingId, expiresAt, hlast⟩
    · rcases h.creds c' hc' with hcreated | ⟨nonce', pendingId', expiresAt', haccepted⟩
      · exact .inl (hmem hcreated)
      · exact .inr ⟨nonce', pendingId', expiresAt', hmem haccepted⟩
  · rw [hpending, FiniteMap.lookup_insert_ite] at hp'
    split_ifs at hp' with heq
    · cases hp'
      rw [heq, hcred, hexpires]
      refine ⟨⟨nonce, hlast⟩, fun c' hadmitted ↦ ?_, fun record' hrecord' ↦ ?_⟩
      · -- an admission of this pending join would have drawn its id before
        rcases List.mem_append.mp hadmitted with hold | hnew
        · obtain ⟨nonce', expiresAt', haccepted⟩ := hevents.admitted id pendingId c' hold
          exact not_mem_of_drawn hdistinct haccepted pendingId (by simp [drawn]) (by simp [drawn])
        · cases List.mem_singleton.mp hnew
      · rw [hcreds, AList.lookup_insert] at hrecord'
        cases hrecord'
        exact hdead
    · obtain ⟨⟨nonce', haccepted⟩, hnot, hrecord⟩ := h.pending pendingId' p' hp'
      refine ⟨⟨nonce', hmem haccepted⟩, fun c' hadmitted ↦ ?_, fun record' hrecord' ↦ ?_⟩
      · rcases List.mem_append.mp hadmitted with hold | hnew
        · exact hnot c' hold
        · cases List.mem_singleton.mp hnew
      · rw [hcreds, FiniteMap.lookup_insert_ite] at hrecord'
        split_ifs at hrecord'
        · cases hrecord'
          exact hdead
        · exact hrecord record' hrecord'
  · rw [hinvites, FiniteMap.lookup_erase_ite] at hnonce'
    split_ifs at hnonce' with heq
    · cases hnonce'
    · have haccepted : isAccepted id nonce' (.accepted id nonce pendingId c expiresAt) = false := by
        simp [isAccepted, Ne.symm heq]
      have hinvited : isInvited id nonce' (.accepted id nonce pendingId c expiresAt) = false := rfl
      rw [List.countP_append, List.countP_append, List.countP_singleton, List.countP_singleton,
        haccepted, hinvited]
      exact h.invites nonce' hnonce'

/-- A pending join is admitted. -/
theorem GroupInv.admission {id : GroupId} {g g' : GroupState} {pendingId : Key} {p : PendingRecord}
    (h : GroupInv events id g) (hdistinct : (events.flatMap drawn).Nodup)
    (hp : g.pending.lookup pendingId = some p)
    (hcreds : ∀ c ≠ p.cred.credentialId, g'.creds.lookup c = g.creds.lookup c)
    (hprunes : g.Prunes g') (htaken : g'.pending.lookup pendingId = none) :
    GroupInv (events ++ [.admitted id pendingId p.cred.credentialId]) id g' := by
  have hmem {e : GroupEvent} (he : e ∈ events) :
      e ∈ events ++ [.admitted id pendingId p.cred.credentialId] := List.mem_append_left _ he
  refine ⟨fun c hc ↦ ?_, fun pendingId' p' hp' ↦ ?_, fun nonce hnonce ↦ ?_⟩
  · by_cases heq : c = p.cred.credentialId
    · obtain ⟨⟨nonce, haccepted⟩, -⟩ := h.pending pendingId p hp
      rw [heq]
      exact .inr ⟨nonce, pendingId, p.expiresAt, hmem haccepted⟩
    · rw [hcreds c heq] at hc
      rcases h.creds c hc with hcreated | ⟨nonce, pendingId', expiresAt, haccepted⟩
      · exact .inl (hmem hcreated)
      · exact .inr ⟨nonce, pendingId', expiresAt, hmem haccepted⟩
  · have hne : pendingId' ≠ pendingId := by
      rintro rfl
      rw [htaken] at hp'
      cases hp'
    have hold := hprunes.pending pendingId' p' hp'
    obtain ⟨⟨nonce, haccepted⟩, hnot, hrecord⟩ := h.pending pendingId' p' hold
    refine ⟨⟨nonce, hmem haccepted⟩, fun c hadmitted ↦ ?_, fun record hrecord' ↦ ?_⟩
    · rcases List.mem_append.mp hadmitted with hbefore | hnew
      · exact hnot c hbefore
      · cases List.mem_singleton.mp hnew
        exact hne rfl
    · rw [hcreds _ fun hcred ↦ hne (h.pending_unique hdistinct hp hold hcred)] at hrecord'
      exact hrecord record hrecord'
  · rw [List.countP_append, List.countP_append, List.countP_singleton, List.countP_singleton]
    exact h.invites nonce (hprunes.invites nonce hnonce)

/-- Every group keeps its invariant. -/
theorem Effect.groupInv (h : Effect crypto copies host host' event)
    (hdistinct : ((events ++ event.toList).flatMap drawn).Nodup)
    (hgroups : ∀ id g, host.groups.lookup id = some g → GroupInv events id g)
    (hevents : EventInv events) (id : GroupId) (g' : GroupState)
    (hg' : host'.groups.lookup id = some g') : GroupInv (events ++ event.toList) id g' := by
  have hone {groupId : GroupId} {new : GroupState}
      (hnew : host'.groups.lookup groupId = some new)
      (hothers : ∀ id ≠ groupId, host'.groups.lookup id = host.groups.lookup id)
      (hevent : ∀ e ∈ event, e.group = groupId)
      (hinv : GroupInv (events ++ event.toList) groupId new) :
      GroupInv (events ++ event.toList) id g' := by
    by_cases hid : id = groupId
    · subst hid
      rw [hnew] at hg'
      cases hg'
      exact hinv
    · rw [hothers id hid] at hg'
      exact (hgroups id g' hg').other fun e he heq ↦ hid (heq.symm.trans (hevent e he))
  have hbefore : (events.flatMap drawn).Nodup := by
    rw [List.flatMap_append, List.nodup_append'] at hdistinct
    exact hdistinct.1
  cases h with
  | still hsame =>
    rw [hsame] at hg'
    exact (hgroups id g' hg').other fun e he ↦ by cases he
  | @create groupId g c hnew hothers hcreds hpending hinvites hseq =>
    refine hone hnew hothers (fun e he ↦ by cases he; rfl) ⟨fun c' hc' ↦ .inl ?_,
      fun pendingId p hp ↦ ?_, fun nonce hnonce ↦ ?_⟩
    · by_cases hc : c' = c
      · rw [hc]
        exact List.mem_append_right _ (List.mem_singleton_self _)
      · rw [hcreds c' hc] at hc'
        cases hc'
    · rw [hpending] at hp
      cases hp
    · rw [hinvites] at hnonce
      cases hnonce
  | @invite groupId g new nonce hwrite hcreds hpending hseq hinvites =>
    exact hone hwrite.new hwrite.others (fun e he ↦ by cases he; rfl)
      ((hgroups _ g hwrite.old).invite hevents hcreds hpending hinvites)
  | @prune groupId g new hwrite hcreds hprunes hseq =>
    refine hone hwrite.new hwrite.others (fun e he ↦ by cases he)
      ((hgroups _ g hwrite.old).touch hprunes (fun c record' hrecord' ↦ ?_) fun e he ↦ by cases he)
    obtain ⟨record, hrecord, hlive⟩ := hcreds.live hrecord'
    exact ⟨record, hrecord, fun hdead ↦ hlive ▸ hdead⟩
  | @accept groupId g new nonce pendingId c stored hwrite hstored hinvites hcreds hpending hseq =>
    obtain ⟨record, hdead, hcreds⟩ := hcreds
    obtain ⟨p, hcred, hexpires, hpending⟩ := hpending
    exact hone hwrite.new hwrite.others (fun e he ↦ by cases he; rfl)
      ((hgroups _ g hwrite.old).accept hevents hdistinct hinvites hdead hcreds hcred hexpires
        hpending)
  | @admission groupId g new pendingId p hwrite hp hnow hcreds hprunes htaken hseq =>
    exact hone hwrite.new hwrite.others (fun e he ↦ by cases he; rfl)
      ((hgroups _ g hwrite.old).admission hbefore hp hcreds hprunes htaken)
  | @fail groupId g new hwrite hcreds hprunes hstuck =>
    refine hone hwrite.new hwrite.others (fun e he ↦ by cases he)
      ((hgroups _ g hwrite.old).touch hprunes (fun c record' hrecord' ↦ ?_) fun e he ↦ by cases he)
    obtain ⟨record, hrecord, hlive⟩ := hcreds.live hrecord'
    exact ⟨record, hrecord, fun hdead ↦ hlive ▸ hdead⟩
  | @append groupId g new type body out hwrite hout hseq hcopied hprunes hcreds hremoved =>
    refine hone hwrite.new hwrite.others (fun e he ↦ by cases he; rfl)
      ((hgroups _ g hwrite.old).touch hprunes (fun c record' hrecord' ↦ ?_) fun e he ↦ ?_)
    · by_cases hc : removedBy type body = some c
      · have hstanding := hremoved c hc
        rw [hrecord', Option.map_some] at hstanding
        obtain ⟨record, hrecord, heq⟩ := Option.map_eq_some_iff.mp hstanding.symm
        exact ⟨record, hrecord, fun _ ↦ (congrArg Prod.fst heq).symm⟩
      · have hstanding := hcreds c hc
        rw [hrecord', Option.map_some] at hstanding
        obtain ⟨record, hrecord, heq⟩ := Option.map_eq_some_iff.mp hstanding.symm
        exact ⟨record, hrecord, fun hdead ↦ (congrArg Prod.fst heq).symm.trans hdead⟩
    · cases he
      exact ⟨rfl, fun _ ↦ rfl, fun _ _ heq ↦ by cases heq⟩

/-- Counts change with the events they count. -/
theorem EventInv.append {e : GroupEvent} (h : EventInv events)
    (hadmitted : ∀ id pendingId c, e = .admitted id pendingId c →
      (∃ nonce expiresAt, .accepted id nonce pendingId c expiresAt ∈ events) ∧
        ∀ c', .admitted id pendingId c' ∉ events)
    (haccepted : ∀ id nonce, isAccepted id nonce e = true →
      events.countP (isAccepted id nonce) < events.countP (isInvited id nonce)) :
    EventInv (events ++ [e]) := by
  refine ⟨fun id pendingId c hmem ↦ ?_, fun id nonce ↦ ?_, fun id pendingId ↦ ?_⟩
  · have hfrom : ∃ nonce expiresAt, .accepted id nonce pendingId c expiresAt ∈ events := by
      rcases List.mem_append.mp hmem with hold | hnew
      · exact h.admitted id pendingId c hold
      · exact (hadmitted id pendingId c (List.mem_singleton.mp hnew).symm).1
    obtain ⟨nonce, expiresAt, hfrom⟩ := hfrom
    exact ⟨nonce, expiresAt, List.mem_append_left _ hfrom⟩
  · rw [List.countP_append, List.countP_append, List.countP_singleton, List.countP_singleton]
    by_cases hcounts : isAccepted id nonce e = true
    · have hlt := haccepted id nonce hcounts
      rw [if_pos hcounts]
      omega
    · have hle := h.accepts id nonce
      rw [if_neg hcounts]
      omega
  · rw [List.countP_append, List.countP_singleton]
    have hle := h.once id pendingId
    split_ifs with hcounts
    · have hnone : events.countP (isAdmitted id pendingId) = 0 := by
        rw [List.countP_eq_zero]
        intro e' he' hcounts'
        cases e with
        | admitted groupId pendingId' c =>
          obtain ⟨rfl, rfl⟩ : groupId = id ∧ pendingId' = pendingId := by
            simpa [isAdmitted] using hcounts
          cases e' with
          | admitted groupId' pendingId'' c' =>
            obtain ⟨rfl, rfl⟩ : groupId' = groupId ∧ pendingId'' = pendingId' := by
              simpa [isAdmitted] using hcounts'
            exact (hadmitted _ _ c rfl).2 c' he'
          | _ => cases hcounts'
        | _ => cases hcounts
      omega
    · omega

theorem Effect.eventInv (h : Effect crypto copies host host' event)
    (hgroups : ∀ id g, host.groups.lookup id = some g → GroupInv events id g)
    (hevents : EventInv events) : EventInv (events ++ event.toList) := by
  cases h with
  | still | prune | fail => simpa using hevents
  | create | invite | append =>
    exact hevents.append (fun _ _ _ heq ↦ by cases heq) fun _ _ hcounts ↦ by cases hcounts
  | @accept groupId g new nonce pendingId c stored hwrite hstored =>
    refine hevents.append (fun _ _ _ heq ↦ by cases heq) fun id nonce' hcounts ↦ ?_
    obtain ⟨rfl, rfl⟩ : groupId = id ∧ nonce = nonce' := by simpa [isAccepted] using hcounts
    exact (hgroups _ g hwrite.old).invites nonce (by rw [hstored]; rfl)
  | @admission groupId g new pendingId p hwrite hp =>
    refine hevents.append (fun id pendingId' c heq ↦ ?_) fun _ _ hcounts ↦ by cases hcounts
    cases heq
    obtain ⟨⟨nonce, haccepted⟩, hnot, -⟩ := (hgroups _ g hwrite.old).pending pendingId p hp
    exact ⟨⟨nonce, p.expiresAt, haccepted⟩, hnot⟩

theorem Effect.known (h : Effect crypto copies host host' event)
    (hknown : ∀ id g, host.groups.lookup id = some g → ∃ c, .created id c ∈ events) (id : GroupId)
    (g' : GroupState) (hg' : host'.groups.lookup id = some g') :
    ∃ c, .created id c ∈ events ++ event.toList := by
  have hold {g : GroupState} (hg : host.groups.lookup id = some g) :
      ∃ c, .created id c ∈ events ++ event.toList := by
    obtain ⟨c, hc⟩ := hknown id g hg
    exact ⟨c, List.mem_append_left _ hc⟩
  have hwrites {groupId : GroupId} {g new : GroupState} (hwrite : host.Rewrites host' groupId g new) :
      ∃ c, .created id c ∈ events ++ event.toList := by
    by_cases hid : id = groupId
    · subst hid
      exact hold hwrite.old
    · exact hold ((hwrite.others id hid).symm.trans hg')
  cases h with
  | invite hwrite => exact hwrites hwrite
  | prune hwrite => exact hwrites hwrite
  | accept hwrite => exact hwrites hwrite
  | admission hwrite => exact hwrites hwrite
  | fail hwrite => exact hwrites hwrite
  | append hwrite => exact hwrites hwrite
  | still hsame => exact hold ((hsame id).symm.trans hg')
  | @create groupId g c hnew hothers =>
    by_cases hid : id = groupId
    · rw [hid]
      exact ⟨c, List.mem_append_right _ (List.mem_singleton_self _)⟩
    · exact hold ((hothers id hid).symm.trans hg')

/-- One operation keeps the invariant when its draws are new. -/
theorem GroupLog.Inv.step {usable : Key → Prop} (hseals : crypto.SealsByKey usable) {s : GroupLog}
    (h : s.Inv) (op : GroupOp) (hdistinct : ((s.step crypto op).events.flatMap drawn).Nodup) :
    (s.step crypto op).Inv where
  known := (op.effect hseals s.host).known h.known
  groups := (op.effect hseals s.host).groupInv hdistinct h.groups h.events
  events := (op.effect hseals s.host).eventInv h.groups h.events

/-! ## Live and removed credentials -/

/-- A credential of a group is live. -/
def GroupHost.Live (host : GroupHost) (id : GroupId) (c : Key) : Prop :=
  ∃ g record, host.groups.lookup id = some g ∧ g.creds.lookup c = some record ∧ record.live = true

/-- A credential is not live, has no target, and no pending join reserves it. -/
def GroupHost.Removed (host : GroupHost) (id : GroupId) (c : Key) : Prop :=
  ∃ g record, host.groups.lookup id = some g ∧ g.creds.lookup c = some record ∧
    record.standing = (false, none) ∧
    ∀ pendingId p, g.pending.lookup pendingId = some p → p.cred.credentialId ≠ c

/-- Only a new group and an admission make a credential live. -/
theorem Effect.live (h : Effect crypto copies host host' event) {id : GroupId} {c : Key}
    (hbefore : ¬ host.Live id c) (hafter : host'.Live id c) :
    event = some (.created id c) ∨ ∃ g pendingId p, host.groups.lookup id = some g ∧
      g.pending.lookup pendingId = some p ∧ p.cred.credentialId = c ∧ host.now < p.expiresAt ∧
      event = some (.admitted id pendingId c) := by
  obtain ⟨g', record', hg', hrecord', hlive⟩ := hafter
  -- a group whose credentials keep their standing has nobody new who is live
  have hkept {groupId : GroupId} {g new : GroupState} (hwrite : host.Rewrites host' groupId g new)
      (hstanding : ∀ record', new.creds.lookup c = some record' → record'.live = true →
        ∃ record, g.creds.lookup c = some record ∧ record.live = true) : False := by
    apply hbefore
    by_cases hid : id = groupId
    · subst hid
      rw [hwrite.new] at hg'
      cases hg'
      obtain ⟨record, hrecord⟩ := hstanding record' hrecord' hlive
      exact ⟨g, record, hwrite.old, hrecord⟩
    · exact ⟨g', record', (hwrite.others id hid).symm.trans hg', hrecord', hlive⟩
  have hsame {g new : GroupState} (hcreds : SameStanding g.creds new.creds) (record' : CredRecord)
      (hrecord' : new.creds.lookup c = some record') (hlive : record'.live = true) :
      ∃ record, g.creds.lookup c = some record ∧ record.live = true := by
    obtain ⟨record, hrecord, heq⟩ := hcreds.live hrecord'
    exact ⟨record, hrecord, heq.trans hlive⟩
  cases h with
  | still hsame => exact absurd ⟨g', record', (hsame id).symm.trans hg', hrecord', hlive⟩ hbefore
  | @create groupId g c' hnew hothers hcreds =>
    by_cases hid : id = groupId
    · subst hid
      rw [hnew] at hg'
      cases hg'
      by_cases hc : c = c'
      · exact .inl (by rw [hc])
      · rw [hcreds c hc] at hrecord'
        cases hrecord'
    · exact absurd ⟨g', record', (hothers id hid).symm.trans hg', hrecord', hlive⟩ hbefore
  | invite hwrite hcreds => exact (hkept hwrite (hsame (hcreds ▸ .refl _))).elim
  | prune hwrite hcreds => exact (hkept hwrite (hsame hcreds)).elim
  | fail hwrite hcreds => exact (hkept hwrite (hsame hcreds)).elim
  | @accept groupId g new nonce pendingId c' stored hwrite hstored hinvites hcreds =>
    obtain ⟨reserved, hdead, hcreds⟩ := hcreds
    refine (hkept hwrite fun record hrecord hlive ↦ ?_).elim
    rw [hcreds, FiniteMap.lookup_insert_ite] at hrecord
    split_ifs at hrecord
    · cases hrecord
      rw [hdead] at hlive
      cases hlive
    · exact ⟨record, hrecord, hlive⟩
  | @append groupId g new type body out hwrite hout hseq hcopied hprunes hcreds hremoved =>
    refine (hkept hwrite fun record hrecord hlive ↦ ?_).elim
    by_cases hc : removedBy type body = some c
    · have hstanding := hremoved c hc
      rw [hrecord, Option.map_some] at hstanding
      obtain ⟨old, -, heq⟩ := Option.map_eq_some_iff.mp hstanding.symm
      have hdead : false = record.live := congrArg Prod.fst heq
      rw [hlive] at hdead
      cases hdead
    · have hstanding := hcreds c hc
      rw [hrecord, Option.map_some] at hstanding
      obtain ⟨old, hold, heq⟩ := Option.map_eq_some_iff.mp hstanding.symm
      exact ⟨old, hold, (congrArg Prod.fst heq).trans hlive⟩
  | @admission groupId g new pendingId p hwrite hp hnow hcreds =>
    by_cases hid : id = groupId
    · subst hid
      by_cases hc : c = p.cred.credentialId
      · exact .inr ⟨g, pendingId, p, hwrite.old, hp, hc.symm, hnow, by rw [hc]⟩
      · refine (hkept hwrite fun record hrecord hlive ↦ ⟨record, ?_, hlive⟩).elim
        rw [← hcreds c hc, hrecord]
    · exact absurd ⟨g', record', (hwrite.others id hid).symm.trans hg', hrecord', hlive⟩ hbefore

/-- A removed credential stays removed. -/
theorem Effect.removed (h : Effect crypto copies host host' event)
    (hdistinct : ((events ++ event.toList).flatMap drawn).Nodup)
    (hknown : ∀ id g, host.groups.lookup id = some g → ∃ c, .created id c ∈ events)
    (hgroups : ∀ id g, host.groups.lookup id = some g → GroupInv events id g) {id : GroupId}
    {c : Key} (hremoved : host.Removed id c) : host'.Removed id c := by
  obtain ⟨g₀, record, hg₀, hrecord, hstanding, hreserves⟩ := hremoved
  have hother {groupId : GroupId} (hid : id ≠ groupId)
      (hothers : ∀ id ≠ groupId, host'.groups.lookup id = host.groups.lookup id) :
      host'.Removed id c :=
    ⟨g₀, record, (hothers id hid).trans hg₀, hrecord, hstanding, hreserves⟩
  have hwrites {groupId : GroupId} {g new : GroupState} (hwrite : host.Rewrites host' groupId g new)
      (hnew : id = groupId → g = g₀ → (new.creds.lookup c).map CredRecord.standing =
          (g.creds.lookup c).map CredRecord.standing ∧
        ∀ pendingId p, new.pending.lookup pendingId = some p → p.cred.credentialId ≠ c) :
      host'.Removed id c := by
    by_cases hid : id = groupId
    · subst hid
      obtain rfl : g = g₀ := Option.some.inj (hwrite.old.symm.trans hg₀)
      obtain ⟨hsame, hpending⟩ := hnew rfl rfl
      rw [hrecord, Option.map_some, hstanding] at hsame
      obtain ⟨record', hrecord', hstanding'⟩ := Option.map_eq_some_iff.mp hsame
      exact ⟨new, record', hwrite.new, hrecord', hstanding', hpending⟩
    · exact hother hid hwrite.others
  have hprune {g new : GroupState} (hprunes : g.Prunes new) (hg : g = g₀) (pendingId : Key)
      (p : PendingRecord) (hp : new.pending.lookup pendingId = some p) :
      p.cred.credentialId ≠ c :=
    hreserves pendingId p (hg ▸ hprunes.pending pendingId p hp)
  cases h with
  | still hsame => exact ⟨g₀, record, (hsame id).trans hg₀, hrecord, hstanding, hreserves⟩
  | @create groupId g c' hnew hothers =>
    -- the new group has a new id
    refine hother (fun hid ↦ ?_) hothers
    obtain ⟨c₀, hc₀⟩ := hknown id g₀ hg₀
    exact not_mem_of_drawn hdistinct hc₀ id.key (by simp [drawn, hid]) (by simp [drawn])
  | invite hwrite hcreds hpending =>
    refine hwrites hwrite fun _ hg ↦ ⟨by rw [hcreds], fun pendingId p hp ↦ ?_⟩
    exact hreserves pendingId p (by rw [← hg, ← hpending, hp])
  | prune hwrite hcreds hprunes => exact hwrites hwrite fun _ hg ↦ ⟨hcreds c, hprune hprunes hg⟩
  | fail hwrite hcreds hprunes => exact hwrites hwrite fun _ hg ↦ ⟨hcreds c, hprune hprunes hg⟩
  | @accept groupId g new nonce pendingId c' stored hwrite hstored hinvites hcreds hpending =>
    obtain ⟨reserved, -, hcreds⟩ := hcreds
    obtain ⟨p, hcred, -, hpending⟩ := hpending
    -- the credential that is reserved is a new one
    have hc : c ≠ c' := by
      rintro rfl
      have hold : ∃ e ∈ events, c ∈ e.drawn := by
        rcases (hgroups id g₀ hg₀).creds c (by rw [hrecord]; rfl) with hcreated | ⟨_, _, _, haccepted⟩
        · exact ⟨_, hcreated, by simp [drawn]⟩
        · exact ⟨_, haccepted, by simp [drawn]⟩
      obtain ⟨e, he, hdrawn⟩ := hold
      exact not_mem_of_drawn hdistinct he c (by simp [drawn]) hdrawn
    refine hwrites hwrite fun _ hg ↦ ⟨?_, fun pendingId' p' hp' ↦ ?_⟩
    · rw [hcreds, FiniteMap.lookup_insert_ite, if_neg hc]
    · rw [hpending, FiniteMap.lookup_insert_ite] at hp'
      split_ifs at hp'
      · cases hp'
        rw [hcred]
        exact hc.symm
      · exact hreserves pendingId' p' (hg ▸ hp')
  | @admission groupId g new pendingId p hwrite hp hnow hcreds hprunes =>
    refine hwrites hwrite fun _ hg ↦ ⟨?_, hprune hprunes hg⟩
    rw [hcreds c (hreserves pendingId p (hg ▸ hp)).symm]
  | @append groupId g new type body out hwrite hout hseq hcopied hprunes hcreds hremoved =>
    refine hwrites hwrite fun _ hg ↦ ⟨?_, hprune hprunes hg⟩
    by_cases hc : removedBy type body = some c
    · rw [hremoved c hc, hg, hrecord, Option.map_some, Option.map_some, hstanding]
    · exact hcreds c hc

/-! ## Numbers -/

/-- The rows of every group are numbered from one on. -/
def GroupLog.Counted (s : GroupLog) : Prop :=
  ∀ id, (s.host.groups.lookup id = none → s.events.filterMap (seqIn id) = []) ∧
    ∀ g, s.host.groups.lookup id = some g → 1 ≤ g.nextSeq ∧
      s.events.filterMap (seqIn id) = List.range' 1 (g.nextSeq - 1)

theorem Effect.counted (h : Effect crypto copies host host' event) (hcopies : copies)
    (hfresh : ∀ id c, event = some (.created id c) → host.groups.lookup id = none)
    (hcounted : GroupLog.Counted ⟨host, events⟩) :
    GroupLog.Counted ⟨host', events ++ event.toList⟩ := by
  intro id
  have hold := hcounted id
  dsimp only at hold ⊢
  rw [List.filterMap_append]
  -- nothing happens to a group without an event of its own
  have hquiet (hgroup : host'.groups.lookup id = host.groups.lookup id)
      (hevent : ∀ e ∈ event, seqIn id e = none) :
      (host'.groups.lookup id = none →
        events.filterMap (seqIn id) ++ event.toList.filterMap (seqIn id) = []) ∧
      ∀ g, host'.groups.lookup id = some g → 1 ≤ g.nextSeq ∧
        events.filterMap (seqIn id) ++ event.toList.filterMap (seqIn id) =
          List.range' 1 (g.nextSeq - 1) := by
    have hnone : event.toList.filterMap (seqIn id) = [] := by
      rw [List.filterMap_eq_nil_iff]
      exact fun e he ↦ hevent e (Option.mem_toList.mp he)
    rw [hnone, List.append_nil, hgroup]
    exact hold
  have hwrites {groupId : GroupId} {g new : GroupState} (hwrite : host.Rewrites host' groupId g new)
      (hgroup : ∀ e ∈ event, e.group = groupId) (hseq : new.nextSeq = g.nextSeq)
      (hevent : ∀ e ∈ event, seqIn groupId e = none) :
      (host'.groups.lookup id = none →
        events.filterMap (seqIn id) ++ event.toList.filterMap (seqIn id) = []) ∧
      ∀ g, host'.groups.lookup id = some g → 1 ≤ g.nextSeq ∧
        events.filterMap (seqIn id) ++ event.toList.filterMap (seqIn id) =
          List.range' 1 (g.nextSeq - 1) := by
    by_cases hid : id = groupId
    · subst hid
      have hnone : event.toList.filterMap (seqIn id) = [] := by
        rw [List.filterMap_eq_nil_iff]
        exact fun e he ↦ hevent e (Option.mem_toList.mp he)
      rw [hnone, List.append_nil, hwrite.new]
      refine ⟨fun h ↦ (by cases h), fun g' hg' ↦ ?_⟩
      cases hg'
      rw [hseq]
      exact hold.2 g hwrite.old
    · refine hquiet (hwrite.others id hid) fun e he ↦ seqIn_other fun heq ↦ hid ?_
      rw [← heq, hgroup e he]
  cases h with
  | still hsame => exact hquiet (hsame id) fun e he ↦ by cases he
  | @create groupId g c hnew hothers hcreds hpending hinvites hseq =>
    by_cases hid : id = groupId
    · subst hid
      rw [hold.1 (hfresh id c rfl), hnew]
      refine ⟨fun h ↦ (by cases h), fun g' hg' ↦ ?_⟩
      cases hg'
      rw [hseq]
      exact ⟨le_rfl, rfl⟩
    · exact hquiet (hothers id hid) fun e he ↦ by cases he; rfl
  | invite hwrite _ _ hseq =>
    exact hwrites hwrite (fun e he ↦ by cases he; rfl) hseq fun e he ↦ by cases he; rfl
  | prune hwrite _ _ hseq =>
    exact hwrites hwrite (fun e he ↦ by cases he) hseq fun e he ↦ by cases he
  | accept hwrite _ _ _ _ hseq =>
    exact hwrites hwrite (fun e he ↦ by cases he; rfl) hseq fun e he ↦ by cases he; rfl
  | admission hwrite _ _ _ _ _ hseq =>
    exact hwrites hwrite (fun e he ↦ by cases he; rfl) hseq fun e he ↦ by cases he; rfl
  | fail _ _ _ hstuck => exact absurd hcopies hstuck
  | @append groupId g new type body out hwrite hout hseq =>
    by_cases hid : id = groupId
    · subst hid
      rw [hwrite.new]
      refine ⟨fun h ↦ (by cases h), fun g' hg' ↦ ?_⟩
      cases hg'
      obtain ⟨hpos, hrange⟩ := hold.2 g hwrite.old
      have hlast : (some (appended id type body out)).toList.filterMap (seqIn id) = [g.nextSeq] := by
        simp [seqIn, hout]
      rw [hlast, hrange, hseq, Nat.add_sub_cancel]
      refine ⟨Nat.le_add_left _ _, ?_⟩
      have hsucc : g.nextSeq = g.nextSeq - 1 + 1 := by omega
      conv_rhs => rw [hsucc, List.range'_1_concat]
      rw [Nat.add_comm 1, ← hsucc]
    · refine hquiet (hwrite.others id hid) fun e he ↦ ?_
      cases he
      exact seqIn_other fun heq ↦ hid heq.symm

end Invariant

/-! ## Runs -/

section Runs

variable {crypto : Crypto} {usable : Key → Prop}

theorem nodup_of_step {s : GroupLog} {op : GroupOp}
    (h : ((s.step crypto op).events.flatMap drawn).Nodup) : (s.events.flatMap drawn).Nodup := by
  rw [GroupLog.step, List.flatMap_append, List.nodup_append'] at h
  exact h.1

theorem nodup_of_run {s : GroupLog} {ops : List GroupOp}
    (h : ((run (GroupLog.step crypto) s ops).events.flatMap drawn).Nodup) :
    (s.events.flatMap drawn).Nodup := by
  induction ops generalizing s with
  | nil => exact h
  | cons op ops ih => exact nodup_of_step (ih h)

theorem GroupLog.inv_start : GroupLog.start.Inv where
  known _ _ h := by cases h
  groups _ _ h := by cases h
  events := ⟨fun _ _ _ h ↦ (by cases h), fun _ _ ↦ le_rfl, fun _ _ ↦ Nat.zero_le 1⟩

theorem GroupLog.Inv.run (hseals : crypto.SealsByKey usable) {s : GroupLog} (h : s.Inv)
    (ops : List GroupOp) (hdistinct : ((run (GroupLog.step crypto) s ops).events.flatMap drawn).Nodup) :
    (run (GroupLog.step crypto) s ops).Inv :=
  run_keeps (fun t : GroupLog ↦ (t.events.flatMap drawn).Nodup → t.Inv)
    (fun _ op ht hnodup ↦ (ht (nodup_of_step hnodup)).step hseals op hnodup) (fun _ ↦ h) ops hdistinct

/-- A group that is created is new. -/
theorem GroupLog.Inv.fresh {s : GroupLog} (h : s.Inv) (op : GroupOp)
    (hdistinct : ((s.step crypto op).events.flatMap drawn).Nodup) (id : GroupId) (c : Key)
    (hevent : op.event crypto s.host = some (.created id c)) : s.host.groups.lookup id = none := by
  rw [GroupLog.step, hevent] at hdistinct
  cases hg : s.host.groups.lookup id with
  | none => rfl
  | some g =>
    obtain ⟨c', hc'⟩ := h.known id g hg
    exact absurd (by simp [drawn]) (not_mem_of_drawn hdistinct hc' id.key (by simp [drawn]))

theorem GroupLog.counted_run (hseals : crypto.SealsByKey usable) {s : GroupLog} (h : s.Inv)
    (hs : s.Counted) {ops : List GroupOp}
    (hcopies : Allowed (GroupLog.step crypto) (fun s op ↦ op.Copies crypto usable s.host) s ops)
    (hdistinct : ((run (GroupLog.step crypto) s ops).events.flatMap drawn).Nodup) :
    (run (GroupLog.step crypto) s ops).Counted := by
  induction ops generalizing s with
  | nil => exact hs
  | cons op ops ih =>
    have hstep : ((s.step crypto op).events.flatMap drawn).Nodup := nodup_of_run hdistinct
    exact ih (h.step hseals op hstep)
      ((op.effect hseals s.host).counted hcopies.1 (h.fresh op hstep) hs) hcopies.2 hdistinct

theorem GroupHost.Removed.run (hseals : crypto.SealsByKey usable) {id : GroupId} {c : Key}
    {s : GroupLog} (h : s.Inv) (hremoved : s.host.Removed id c) {ops : List GroupOp}
    (hdistinct : ((run (GroupLog.step crypto) s ops).events.flatMap drawn).Nodup) :
    (run (GroupLog.step crypto) s ops).host.Removed id c := by
  induction ops generalizing s with
  | nil => exact hremoved
  | cons op ops ih =>
    have hstep : ((s.step crypto op).events.flatMap drawn).Nodup := nodup_of_run hdistinct
    exact ih (h.step hseals op hstep)
      ((op.effect hseals s.host).removed hstep h.known h.groups hremoved) hdistinct

/-- The host a removal leaves. -/
theorem GroupLog.Inv.removed_of_append (hseals : crypto.SealsByKey usable) {s : GroupLog} (h : s.Inv)
    {op : GroupOp} {id : GroupId} {body : Bytes} {out : StreamAppend} {bundle : RemoveBundle}
    (hevent : op.event crypto s.host = some (.appended id .removeBundle body out))
    (hbundle : RemoveBundle.decode body = .ok bundle)
    (hlive : s.host.Live id bundle.credentialId) :
    (op.apply crypto s.host).Removed id bundle.credentialId := by
  have heffect := op.effect hseals s.host
  rw [hevent] at heffect
  cases heffect with
  | @append _ g new _ _ _ hwrite hout hseq hcopied hprunes hcreds hremoved =>
    obtain ⟨g₀, record, hg₀, hrecord, hlive⟩ := hlive
    obtain rfl : g = g₀ := Option.some.inj (hwrite.old.symm.trans hg₀)
    have hnamed : removedBy .removeBundle body = some bundle.credentialId := by
      rw [removedBy, if_pos rfl, hbundle]
      rfl
    have hstanding := hremoved _ hnamed
    rw [hrecord, Option.map_some] at hstanding
    obtain ⟨record', hrecord', hstanding'⟩ := Option.map_eq_some_iff.mp hstanding
    refine ⟨new, record', hwrite.new, hrecord', hstanding', fun pendingId p hp hcred ↦ ?_⟩
    -- a reserved credential is not live
    have hdead := ((h.groups id g hg₀).pending pendingId p (hprunes.pending _ _ hp)).2.2 record
      (hcred ▸ hrecord)
    rw [hlive] at hdead
    cases hdead

theorem GroupHost.Removed.shut {host : GroupHost} {id : GroupId} {c : Key}
    (h : host.Removed id c) :
    (∀ secret, host.authorizeLive crypto id ⟨c, secret⟩ = .error .denied) ∧
      ∀ g record, host.groups.lookup id = some g → g.creds.lookup c = some record →
        record.live = false ∧ record.fanout = none := by
  obtain ⟨g, record, hg, hrecord, hstanding, -⟩ := h
  have hdead : record.live = false := congrArg Prod.fst hstanding
  have hfanout : (if record.live then none else record.fanout) = none :=
    congrArg Prod.snd hstanding
  rw [hdead, if_neg (by decide)] at hfanout
  constructor
  · intro secret
    unfold authorizeLive
    rw [hg]
    dsimp only
    rw [hrecord]
    dsimp only
    rw [hdead, if_neg (by simp)]
  · intro g' record' hg' hrecord'
    rw [hg] at hg'
    cases hg'
    rw [hrecord] at hrecord'
    cases hrecord'
    exact ⟨hdead, hfanout⟩

/-- Membership over every run with distinct random ids whose rows can all be copied: who becomes
live and how, how often invites and pending joins are used, to whom copies go, that removed
credentials stay out, and how rows are numbered. -/
theorem membership_of_run (crypto : Crypto) {usable : Key → Prop}
    (hseals : crypto.SealsByKey usable) (ops : List GroupOp) (op : GroupOp) (later : List GroupOp)
    (hdistinct :
      ((run (GroupLog.step crypto) .start (ops ++ op :: later)).events.flatMap drawn).Nodup)
    (hcopies : Allowed (GroupLog.step crypto) (fun s op ↦ op.Copies crypto usable s.host) .start
      (ops ++ op :: later)) :
    let before := run (GroupLog.step crypto) .start ops
    let after := run (GroupLog.step crypto) (before.step crypto op) later
    (∀ id c, ¬ before.host.Live id c → (before.step crypto op).host.Live id c →
      op.event crypto before.host = some (.created id c) ∨
        ∃ pendingId, op.event crypto before.host = some (.admitted id pendingId c)) ∧
    (∀ id pendingId c, op.event crypto before.host = some (.admitted id pendingId c) →
      ∃ nonce expiresAt, .accepted id nonce pendingId c expiresAt ∈ before.events ∧
        before.host.now < expiresAt) ∧
    (∀ id pendingId, after.events.countP (isAdmitted id pendingId) ≤ 1) ∧
    (∀ id nonce, after.events.countP (isAccepted id nonce) ≤
      after.events.countP (isInvited id nonce)) ∧
    (∀ id type body out, op.event crypto before.host = some (.appended id type body out) →
      ∃ g, before.host.groups.lookup id = some g ∧ g.CopiedOnce crypto type body out.outers) ∧
    (∀ id body out bundle,
      op.event crypto before.host = some (.appended id .removeBundle body out) →
      RemoveBundle.decode body = .ok bundle → before.host.Live id bundle.credentialId →
        (∀ secret, after.host.authorizeLive crypto id ⟨bundle.credentialId, secret⟩ =
          .error .denied) ∧
        ∀ g record, after.host.groups.lookup id = some g →
          g.creds.lookup bundle.credentialId = some record →
            record.live = false ∧ record.fanout = none) ∧
    ∀ id, after.events.filterMap (seqIn id) =
      List.range' 1 (after.events.filterMap (seqIn id)).length := by
  intro before after
  have hafter : after = run (GroupLog.step crypto) .start (ops ++ op :: later) :=
    (run_append_cons GroupLog.start ops op later).symm
  have hall : (after.events.flatMap drawn).Nodup := hafter ▸ hdistinct
  have hstep : ((before.step crypto op).events.flatMap drawn).Nodup := nodup_of_run hall
  have hinv : before.Inv := GroupLog.inv_start.run hseals ops (nodup_of_step hstep)
  have hinv' : (before.step crypto op).Inv := hinv.step hseals op hstep
  have hlast : after.Inv := hinv'.run hseals later hall
  refine ⟨fun id c hdead hlive ↦ ?_, fun id pendingId c hevent ↦ ?_, hlast.events.once,
    hlast.events.accepts, fun id type body out hevent ↦ ?_,
    fun id body out bundle hevent hbundle hlive ↦ ?_, fun id ↦ ?_⟩
  · rcases (op.effect hseals before.host).live hdead hlive with hcreated | ⟨_, pendingId, _, _, _, _,
      _, hadmitted⟩
    · exact .inl hcreated
    · exact .inr ⟨pendingId, hadmitted⟩
  · have heffect := op.effect hseals before.host
    rw [hevent] at heffect
    cases heffect with
    | @admission _ g new _ p hwrite hp hnow =>
      obtain ⟨⟨nonce, haccepted⟩, -⟩ := (hinv.groups id g hwrite.old).pending pendingId p hp
      exact ⟨nonce, p.expiresAt, haccepted, hnow⟩
  · have heffect := op.effect hseals before.host
    rw [hevent] at heffect
    cases heffect with
    | append hwrite hout hseq hcopied => exact ⟨_, hwrite.old, hcopied⟩
  · exact (GroupHost.Removed.run hseals hinv' (hinv.removed_of_append hseals hevent hbundle hlive)
      hall).shut
  · have hcounted : after.Counted := by
      rw [hafter]
      exact GroupLog.counted_run hseals GroupLog.inv_start
        (fun _ ↦ ⟨fun _ ↦ rfl, fun _ h ↦ by cases h⟩) hcopies hdistinct
    cases hg : after.host.groups.lookup id with
    | none =>
      rw [(hcounted id).1 hg]
      rfl
    | some g =>
      rw [((hcounted id).2 g hg).2, List.length_range']

/-- A group is created, a member joins and is removed again, and a message follows. -/
def joinAndRemove (groupKey creator nonce pendingId joiner : Key) : List GroupOp :=
  [.createGroupFor creator ⟨creator, creator⟩ none ⟨groupKey⟩ ⟨creator, creator⟩,
    .storeInvite ⟨groupKey⟩ ⟨creator, creator⟩ ⟨groupKey, nonce, 300, none, none, .replicate 64 0⟩,
    .accept ⟨groupKey⟩ nonce ⟨joiner, joiner⟩ pendingId,
    .admitJoiner ⟨groupKey⟩ ⟨creator, creator⟩ ⟨groupKey, pendingId, .replicate 64 0⟩ joiner
      ⟨joiner, joiner⟩,
    .append ⟨groupKey⟩ ⟨creator, creator⟩ .removeBundle (joiner.data ++ List.replicate 68 0)
      fun i ↦ (.replicate 32 (UInt8.ofNat i), creator)]

set_option maxRecDepth 100000 in
/-- Six operations succeed, one of them an admission, and the two rows have the numbers one and
two. -/
theorem membership_of_join_and_remove :
    let ops := joinAndRemove (.replicate 32 1) (.replicate 32 2) (.replicate 32 3) (.replicate 32 4)
      (.replicate 32 5)
    let last : GroupOp := .append ⟨.replicate 32 1⟩ ⟨.replicate 32 2, .replicate 32 2⟩ .mlsApp [1]
      fun _ ↦ (.replicate 32 6, .replicate 32 6)
    let after := run (GroupLog.step .transparent)
      ((run (GroupLog.step .transparent) .start ops).step .transparent last) []
    after.events.length = 6 ∧
      after.events.countP (isAdmitted ⟨.replicate 32 1⟩ (.replicate 32 4)) ≤ 1 ∧
      after.events.filterMap (seqIn ⟨.replicate 32 1⟩) =
        List.range' 1 (after.events.filterMap (seqIn ⟨.replicate 32 1⟩)).length := by
  intro ops last after
  obtain ⟨hlength, hdistinct⟩ : after.events.length = 6 ∧ (after.events.flatMap drawn).Nodup := by
    decide +kernel
  have hafter : run (GroupLog.step .transparent) .start (ops ++ [last]) = after :=
    run_append_cons GroupLog.start ops last []
  have hseals : Crypto.transparent.SealsByKey fun _ ↦ True :=
    fun _ _ _ _ ↦ ⟨fun _ ↦ trivial, fun _ ↦ ⟨_, rfl⟩⟩
  have hcopies : Allowed (GroupLog.step .transparent)
      (fun s op ↦ op.Copies .transparent (fun _ ↦ True) s.host) .start (ops ++ [last]) :=
    ⟨trivial, trivial, trivial, trivial, fun _ _ _ _ _ _ _ ↦ ⟨by decide, trivial⟩,
      fun _ _ _ _ _ _ _ ↦ ⟨by decide, trivial⟩, trivial⟩
  obtain ⟨-, -, honce, -, -, -, hseqs⟩ :=
    membership_of_run .transparent hseals ops last [] (by rw [hafter]; exact hdistinct) hcopies
  exact ⟨hlength, honce ⟨.replicate 32 1⟩ (.replicate 32 4), hseqs ⟨.replicate 32 1⟩⟩

set_option maxRecDepth 100000 in
/-- A message too long to be copied fails, and the first message that succeeds is the second row. -/
theorem first_append_takes_second_number :
    let group : Key := .replicate 32 1
    let member : Key := .replicate 32 2
    let draws := fun _ ↦ (member, member)
    let after := run (GroupLog.step .transparent) .start
      [.createGroupFor member ⟨member, member⟩ none ⟨group⟩ ⟨member, member⟩,
        .append ⟨group⟩ ⟨member, member⟩ .mlsApp (List.replicate 16383 0) draws,
        .append ⟨group⟩ ⟨member, member⟩ .mlsApp [1] draws]
    (after.events.flatMap drawn).Nodup ∧ after.events.filterMap (seqIn ⟨group⟩) = [2] := by
  decide +kernel

end Runs

end NemoMessenger.Server
