import NemoMessenger.Server.Http
import NemoMessenger.Server.GroupSync
import NemoMessenger.Server.MailboxLog
import NemoMessenger.Server.Membership

/-!
# The order of copies

A row of a group gets its number under the lock of the groups, and its copies are handed on under the
lock of the home server, which is taken later. Requests that come to the second lock in the order of
their numbers deliver in that order; nothing makes them come so.
-/

namespace NemoMessenger.Server

open NemoMessenger.Data NemoMessenger.Wire

/-! ## Requests between the locks -/

/-- A server with requests that have appended a row and not yet delivered its copies. What has been
delivered is recorded with the row it copies: the rows in mailboxes and in the outbound queue. -/
structure FanoutState where
  home : HomeServer
  groups : GroupHost
  waiting : List (GroupId × StreamAppend)
  rows : List ((GroupId × ℕ) × IdentityId × StoredEnvelope)
  queue : List ((GroupId × ℕ) × OutboundRow)

/-- A server on which no request is under way. -/
def FanoutState.start (home : HomeServer) (groups : GroupHost) : FanoutState :=
  ⟨home, groups, [], [], []⟩

/-- What a request does under its first and under its second lock; `turn` picks the request that gets
the lock of the home server. -/
inductive FanoutStep
  | append (req : AppendRequest) (now : UInt64) (draws : ℕ → Key × Key)
  | deliver (turn : ℕ) (now : UInt64)

/-- The state after a step. -/
def FanoutStep.apply (crypto : Crypto) (s : FanoutState) : FanoutStep → FanoutState
  | append req now draws =>
    match req.appendRow crypto now draws s.groups with
    | (.error _, groups) => { s with groups }
    | (.ok appended, groups) =>
      { s with groups, waiting := s.waiting ++ [(req.groupId, appended)] }
  | deliver turn now =>
    match s.waiting[turn]? with
    | none => s
    | some (groupId, appended) =>
      let home := s.home.deliverCopies crypto now appended.outers
      let tag := fun {α : Type} (copy : α) ↦ ((groupId, appended.seq), copy)
      { s with
        home
        waiting := s.waiting.eraseIdx turn
        rows := s.rows ++ (home.history.appended.drop s.home.history.appended.length).map tag
        queue := s.queue ++ (home.outbound.drop s.home.outbound.length).map tag }

/-- No request for the same group has waited longer. -/
def FanoutStep.InTurn (s : FanoutState) : FanoutStep → Prop
  | append .. => True
  | deliver turn _ => ∀ i < turn, ∀ w w', s.waiting[i]? = some w → s.waiting[turn]? = some w' →
      w.1 ≠ w'.1

/-- Two copies of rows of one group in one mailbox are in the order of the rows. -/
def RowsInOrder (e e' : (GroupId × ℕ) × IdentityId × StoredEnvelope) : Prop :=
  e.1.1 = e'.1.1 → e.2.1 = e'.2.1 → e.2.2.seq < e'.2.2.seq → e.1.2 ≤ e'.1.2

/-- In every mailbox and in the outbound queue the copies of a group are in the order of its
stream. -/
structure FanoutState.InOrder (s : FanoutState) : Prop where
  rows : ∀ e ∈ s.rows, ∀ e' ∈ s.rows, RowsInOrder e e'
  queue : s.queue.Pairwise fun e e' ↦ e.1.1 = e'.1.1 → e.2.dest = e'.2.dest → e.1.2 ≤ e'.1.2

/-! ## Numbers -/

namespace GroupHost

variable {crypto : Crypto} {host host' : GroupHost} {groupId : GroupId}

/-- A group keeps going: it is not removed and its counter does not fall. -/
def Keeps (host host' : GroupHost) : Prop :=
  ∀ id g, host.groups.lookup id = some g →
    ∃ g', host'.groups.lookup id = some g' ∧ g.nextSeq ≤ g'.nextSeq

theorem keeps_append (host : GroupHost) (groupId : GroupId) (cred : MemberCred) (type : MessageType)
    (body : Bytes) (draws : ℕ → Key × Key) :
    host.Keeps (host.append crypto groupId cred type body draws).2 := by
  intro id g hg
  refine Chain.keeps (fun s ↦ ∃ g', s.groups.lookup id = some g' ∧ g.nextSeq ≤ g'.nextSeq)
    (fun s s' hedit hs ↦ ?_) (append_edits crypto .admissible host groupId cred type body draws)
    ⟨g, hg, le_rfl⟩
  obtain ⟨g', hg', hle⟩ := hs
  obtain ⟨g'', hg'', hle'⟩ := hedit.group_kept trivial hg'
  exact ⟨g'', hg'', hle.trans hle'⟩

/-- The number of a copied row is the counter of its group, which goes past it. -/
theorem fanoutCopy_seq {type : MessageType} {body : Bytes} {draws : ℕ → Key × Key}
    {out : StreamAppend} {g : GroupState} (hg : host.groups.lookup groupId = some g)
    (h : host.fanoutCopy crypto groupId type body draws = (.ok out, host')) :
    out.seq = g.nextSeq ∧
      ∃ g', host'.groups.lookup groupId = some g' ∧ g'.nextSeq = g.nextSeq + 1 := by
  rw [fanoutCopy_of_group crypto hg] at h
  split_ifs at h
  · cases h
  · split at h
    · cases h
    · cases h
      exact ⟨rfl, _, AList.lookup_insert _, rfl⟩

/-- The same for `append`. -/
theorem append_seq {cred : MemberCred} {type : MessageType} {body : Bytes}
    {draws : ℕ → Key × Key} {out : StreamAppend}
    (h : host.append crypto groupId cred type body draws = (.ok out, host')) :
    ∃ g g', host.groups.lookup groupId = some g ∧ out.seq = g.nextSeq ∧
      host'.groups.lookup groupId = some g' ∧ g'.nextSeq = g.nextSeq + 1 := by
  by_cases hpasses : host.authorizeLive crypto groupId cred = .ok () ∧
      host.ChecksPass crypto groupId cred body type
  · obtain ⟨hlive, hpass⟩ := hpasses
    obtain ⟨g, hg⟩ := exists_group_of_authorizeLive crypto hlive
    obtain ⟨ready, hready, hnext⟩ : ∃ ready,
        (host.readied groupId cred body type).groups.lookup groupId = some ready ∧
          ready.nextSeq = g.nextSeq := by
      rcases readied_group hpass hg with ⟨-, heq⟩ | ⟨_, _, -, -, -, heq⟩
      · exact ⟨g, heq.symm ▸ hg, rfl⟩
      · rw [heq]
        exact ⟨_, AList.lookup_insert _, rfl⟩
    rw [append_passed draws hlive hpass] at h
    split at h
    · cases h
    · rename_i copied hcopied
      cases h
      obtain ⟨hseq, pushed, hpushed, hpast⟩ := fanoutCopy_seq hready hcopied
      obtain ⟨g', hwrite, hkept, -⟩ := settled_group hpushed
      exact ⟨g, g', hg, hseq.trans hnext, hwrite.new, by rw [hkept, hpast, hnext]⟩
  · obtain ⟨e, heq⟩ := append_refused draws fun hlive hpass ↦ hpasses ⟨hlive, hpass⟩
    rw [heq] at h
    cases h

end GroupHost

/-! ## Deliveries -/

namespace HomeServer

/-- Rows are added to mailboxes under rising numbers, and rows are added to the outbound queue. -/
structure Grows (home home' : HomeServer) (rows : List (IdentityId × StoredEnvelope))
    (queue : List OutboundRow) : Prop where
  appended : home'.history.appended = home.history.appended ++ rows
  outbound : home'.outbound = home.outbound ++ queue
  kept : ∀ m box, home.mailboxes.lookup m = some box →
    ∃ box', home'.mailboxes.lookup m = some box' ∧ box.nextSeq ≤ box'.nextSeq
  rising : rows.Pairwise fun e e' ↦ e.1 = e'.1 → e.2.seq < e'.2.seq
  fresh : ∀ e ∈ rows, ∀ box, home.mailboxes.lookup e.1 = some box → box.nextSeq ≤ e.2.seq
  below : ∀ e ∈ rows, ∃ box, home'.mailboxes.lookup e.1 = some box ∧ e.2.seq < box.nextSeq

variable (crypto : Crypto) {home home' home'' : HomeServer}

/-- Nothing is added where mailboxes, queue and history stay. -/
theorem Grows.of_eq (hmailboxes : home'.mailboxes = home.mailboxes)
    (houtbound : home'.outbound = home.outbound)
    (happended : home'.history.appended = home.history.appended) : home.Grows home' [] [] where
  appended := by rw [happended, List.append_nil]
  outbound := by rw [houtbound, List.append_nil]
  kept m box hbox := ⟨box, hmailboxes ▸ hbox, le_rfl⟩
  rising := .nil
  fresh e he := by cases he
  below e he := by cases he

theorem Grows.trans {rows rows' : List (IdentityId × StoredEnvelope)} {queue queue' : List OutboundRow}
    (h : home.Grows home' rows queue) (h' : home'.Grows home'' rows' queue') :
    home.Grows home'' (rows ++ rows') (queue ++ queue') where
  appended := by rw [h'.appended, h.appended, List.append_assoc]
  outbound := by rw [h'.outbound, h.outbound, List.append_assoc]
  kept m box hbox := by
    obtain ⟨box', hbox', hle⟩ := h.kept m box hbox
    obtain ⟨box'', hbox'', hle'⟩ := h'.kept m box' hbox'
    exact ⟨box'', hbox'', hle.trans hle'⟩
  rising := by
    refine List.pairwise_append.mpr ⟨h.rising, h'.rising, fun e he e' he' hbox ↦ ?_⟩
    obtain ⟨box, hlookup, hlt⟩ := h.below e he
    exact hlt.trans_le (h'.fresh e' he' box (hbox ▸ hlookup))
  fresh e he box hbox := by
    rcases List.mem_append.mp he with he | he
    · exact h.fresh e he box hbox
    · obtain ⟨box', hbox', hle⟩ := h.kept e.1 box hbox
      exact hle.trans (h'.fresh e he box' hbox')
  below e he := by
    rcases List.mem_append.mp he with he | he
    · obtain ⟨box, hbox, hlt⟩ := h.below e he
      obtain ⟨box', hbox', hle⟩ := h'.kept e.1 box hbox
      exact ⟨box', hbox', hlt.trans_le hle⟩
    · exact h'.below e he

theorem appendInner_grows (home : HomeServer) (inner : InnerEnvelope) :
    ∃ rows, home.Grows (home.appendInner inner).2 rows [] := by
  rcases appendInner_cases home inner with ⟨_, _, _, h⟩ |
    ⟨mailbox, box, _, _, -, hbox, -, ⟨_, -, h⟩ | ⟨padded, -, -, h⟩⟩ <;> rw [h]
  · exact ⟨[], .of_eq rfl rfl rfl⟩
  · exact ⟨[], .of_eq rfl rfl rfl⟩
  · have hnext : ((box.push home.now home.limits.mailboxMaxAgeSecs inner padded.length).gc home.now
        home.limits.mailboxMaxAgeSecs home.limits.mailboxMaxBytes).1.nextSeq =
          box.nextSeq + 1 := by
      rw [(Mailbox.gc_spec _ _ _ _).1, Mailbox.foldl_removeRow_eq Mailbox.removeRow_nextSeq]
      rfl
    refine ⟨[(mailbox, home.newRow box inner)], rfl, (List.append_nil _).symm, ?_,
      List.pairwise_singleton _ _, ?_, ?_⟩
    · intro m box' hbox'
      dsimp only
      rw [FiniteMap.lookup_insert_ite]
      split_ifs with hm
      · subst hm
        rw [hbox] at hbox'
        cases hbox'
        exact ⟨_, rfl, by omega⟩
      · exact ⟨box', hbox', le_rfl⟩
    · intro e he box' hbox'
      obtain rfl := List.mem_singleton.mp he
      dsimp only at hbox'
      rw [hbox] at hbox'
      cases hbox'
      exact le_rfl
    · intro e he
      obtain rfl := List.mem_singleton.mp he
      exact ⟨_, AList.lookup_insert _, hnext ▸ Nat.lt_succ_self _⟩

theorem ingest_grows (home : HomeServer) (outer : OuterEnvelope) :
    ∃ rows, home.Grows (home.ingest crypto outer).2 rows [] := by
  rcases ingest_cases crypto home outer with ⟨_, _, _, h⟩ |
    ⟨enc, -, ⟨_, -, h⟩ | ⟨inner, seq, home', -, -, happend, h⟩⟩ <;> rw [h]
  · exact ⟨[], .of_eq rfl rfl rfl⟩
  · exact ⟨[], .of_eq rfl rfl rfl⟩
  · obtain ⟨rows, hrows⟩ := appendInner_grows home inner
    rw [happend] at hrows
    have hnoted : home'.Grows ((home'.rememberEnc enc seq).noteIngested outer seq) [] [] :=
      .of_eq rfl rfl rfl
    exact ⟨rows, by simpa using hrows.trans hnoted⟩

theorem enqueue_grows (home : HomeServer) (outer : OuterEnvelope) :
    ∃ rows queue, home.Grows (home.enqueue crypto outer).2 rows queue := by
  unfold enqueue
  split
  · obtain ⟨rows, hrows⟩ := ingest_grows crypto home outer
    refine ⟨rows, [], ?_⟩
    split <;> rename_i heq <;> rwa [heq] at hrows
  · exact ⟨[], _, (List.append_nil _).symm, rfl, fun m box hbox ↦ ⟨box, hbox, le_rfl⟩, .nil,
      fun e he ↦ (by cases he), fun e he ↦ (by cases he)⟩

theorem enqueueAll_grows (outers : List OuterEnvelope) (home : HomeServer) :
    ∃ rows queue, home.Grows (home.enqueueAll crypto outers) rows queue := by
  induction outers generalizing home with
  | nil => exact ⟨[], [], .of_eq rfl rfl rfl⟩
  | cons outer outers ih =>
    obtain ⟨rows, queue, hfirst⟩ := enqueue_grows crypto home outer
    obtain ⟨rows', queue', hrest⟩ := ih (home.enqueue crypto outer).2
    exact ⟨_, _, hfirst.trans hrest⟩

theorem deliverCopies_grows (home : HomeServer) (now : UInt64) (outers : List OuterEnvelope) :
    ∃ rows queue, home.Grows (home.deliverCopies crypto now outers) rows queue := by
  obtain ⟨rows, queue, hgrows⟩ :=
    enqueueAll_grows crypto outers { home with now := now.toNat }
  exact ⟨rows, queue, hgrows.appended, hgrows.outbound, hgrows.kept, hgrows.rising, hgrows.fresh,
    hgrows.below⟩

end HomeServer

/-! ## Runs -/

/-- The tags of what has been delivered are in order for each group, and before the counters of the
groups and all requests that wait. -/
structure FanoutState.Tagged (s : FanoutState) (tags : List (GroupId × ℕ)) : Prop where
  rising : tags.Pairwise fun t t' ↦ t.1 = t'.1 → t.2 ≤ t'.2
  below : ∀ t ∈ tags, ∃ g, s.groups.groups.lookup t.1 = some g ∧ t.2 < g.nextSeq
  before : ∀ t ∈ tags, ∀ w ∈ s.waiting, t.1 = w.1 → t.2 ≤ w.2.seq

/-- What holds between the steps of requests that deliver in turn. -/
structure FanoutState.Inv (home : HomeServer) (s : FanoutState) : Prop where
  grows : home.Grows s.home (s.rows.map Prod.snd) (s.queue.map Prod.snd)
  rising : s.waiting.Pairwise fun w w' ↦ w.1 = w'.1 → w.2.seq < w'.2.seq
  below : ∀ w ∈ s.waiting, ∃ g, s.groups.groups.lookup w.1 = some g ∧ w.2.seq < g.nextSeq
  rows : s.Tagged (s.rows.map Prod.fst)
  queue : s.Tagged (s.queue.map Prod.fst)

section Runs

variable {crypto : Crypto} {home : HomeServer} {s : FanoutState}

/-- A group that keeps going stays above a number. -/
theorem GroupHost.Keeps.below {host host' : GroupHost} (h : host.Keeps host') {id : GroupId} {seq : ℕ}
    (hseq : ∃ g, host.groups.lookup id = some g ∧ seq < g.nextSeq) :
    ∃ g, host'.groups.lookup id = some g ∧ seq < g.nextSeq := by
  obtain ⟨g, hg, hlt⟩ := hseq
  obtain ⟨g', hg', hle⟩ := h id g hg
  exact ⟨g', hg', hlt.trans_le hle⟩

theorem FanoutState.Tagged.append {tags : List (GroupId × ℕ)} (h : s.Tagged tags)
    {groups : GroupHost} (hkeeps : s.groups.Keeps groups) {id : GroupId} {out : StreamAppend}
    {g : GroupState} (hg : s.groups.groups.lookup id = some g) (hseq : out.seq = g.nextSeq) :
    FanoutState.Tagged { s with groups, waiting := s.waiting ++ [(id, out)] } tags where
  rising := h.rising
  below t ht := hkeeps.below (h.below t ht)
  before t ht w hw hid := by
    rcases List.mem_append.mp hw with hw | hw
    · exact h.before t ht w hw hid
    · obtain rfl := List.mem_singleton.mp hw
      obtain ⟨g', hg', hlt⟩ := h.below t ht
      rw [hid, hg] at hg'
      cases hg'
      exact hseq ▸ hlt.le

/-- A request that delivers in turn comes before all others of its group. -/
theorem FanoutState.Inv.before (h : s.Inv home) {turn : ℕ} {w : GroupId × StreamAppend}
    (hturn : ∀ i < turn, ∀ v v', s.waiting[i]? = some v → s.waiting[turn]? = some v' → v.1 ≠ v'.1)
    (hw : s.waiting[turn]? = some w) {w' : GroupId × StreamAppend} (hw' : w' ∈ s.waiting)
    (hid : w.1 = w'.1) : w.2.seq ≤ w'.2.seq := by
  obtain ⟨i, hi⟩ := List.mem_iff_getElem?.mp hw'
  rcases Nat.lt_trichotomy i turn with hlt | rfl | hlt
  · exact absurd hid.symm (hturn i hlt w' w hi hw)
  · rw [hw] at hi
    cases hi
    exact le_rfl
  · obtain ⟨hlen, rfl⟩ := List.getElem?_eq_some_iff.mp hw
    obtain ⟨hlen', rfl⟩ := List.getElem?_eq_some_iff.mp hi
    exact (List.pairwise_iff_getElem.mp h.rising turn i hlen hlen' hlt hid).le

theorem FanoutState.Tagged.deliver (hinv : s.Inv home) {tags : List (GroupId × ℕ)} (h : s.Tagged tags)
    {turn : ℕ} {w : GroupId × StreamAppend}
    (hturn : ∀ i < turn, ∀ v v', s.waiting[i]? = some v → s.waiting[turn]? = some v' → v.1 ≠ v'.1)
    (hw : s.waiting[turn]? = some w) {copies : List (GroupId × ℕ)}
    (hcopies : ∀ t ∈ copies, t = (w.1, w.2.seq)) (s' : FanoutState) (hgroups : s'.groups = s.groups)
    (hwaiting : s'.waiting = s.waiting.eraseIdx turn) : s'.Tagged (tags ++ copies) := by
  have hmem : w ∈ s.waiting := List.mem_of_getElem? hw
  refine ⟨List.pairwise_append.mpr ⟨h.rising, ?_, ?_⟩, ?_, ?_⟩
  · refine List.Pairwise.imp_of_mem (R := fun _ _ ↦ True) (fun ht ht' _ _ ↦ ?_) (List.pairwise_of_forall fun _ _ ↦ trivial)
    rw [hcopies _ ht, hcopies _ ht']
  · intro t ht t' ht' hid
    rw [hcopies t' ht'] at hid ⊢
    exact h.before t ht w hmem hid
  · intro t ht
    rw [hgroups]
    rcases List.mem_append.mp ht with ht | ht
    · exact h.below t ht
    · rw [hcopies t ht]
      exact hinv.below w hmem
  · intro t ht w' hw' hid
    rw [hwaiting] at hw'
    have hwaits := List.mem_of_mem_eraseIdx hw'
    rcases List.mem_append.mp ht with ht | ht
    · exact h.before t ht w' hwaits hid
    · rw [hcopies t ht] at hid ⊢
      exact hinv.before hturn hw hwaits hid

theorem FanoutState.inv_start (home : HomeServer) (groups : GroupHost) :
    (FanoutState.start home groups).Inv home where
  grows := .of_eq rfl rfl rfl
  rising := .nil
  below w hw := by cases hw
  rows := ⟨.nil, nofun, nofun⟩
  queue := ⟨.nil, nofun, nofun⟩

/-- One step in turn. -/
theorem FanoutStep.inv (step : FanoutStep) (hturn : step.InTurn s) (h : s.Inv home) :
    (step.apply crypto s).Inv home := by
  cases step with
  | append req now draws =>
    have hkeeps : s.groups.Keeps (req.appendRow crypto now draws s.groups).2 :=
      GroupHost.keeps_append { s.groups with now := now.toNat } req.groupId req.cred req.type
        req.body draws
    dsimp only [apply]
    split
    · rename_i heq
      rw [heq] at hkeeps
      exact ⟨h.grows, h.rising, fun w hw ↦ hkeeps.below (h.below w hw),
        ⟨h.rows.rising, fun t ht ↦ hkeeps.below (h.rows.below t ht), h.rows.before⟩,
        ⟨h.queue.rising, fun t ht ↦ hkeeps.below (h.queue.below t ht), h.queue.before⟩⟩
    · rename_i out groups heq
      rw [heq] at hkeeps
      obtain ⟨g, g', hg, hseq, hg', hnext⟩ := GroupHost.append_seq heq
      have hpast : ∃ g, groups.groups.lookup req.groupId = some g ∧ out.seq < g.nextSeq :=
        ⟨g', hg', by omega⟩
      refine ⟨h.grows, List.pairwise_append.mpr ⟨h.rising, List.pairwise_singleton _ _, ?_⟩, ?_,
        h.rows.append hkeeps hg hseq, h.queue.append hkeeps hg hseq⟩
      · intro w hw w' hw' hid
        obtain rfl := List.mem_singleton.mp hw'
        obtain ⟨old, hold, hlt⟩ := h.below w hw
        rw [hid, hg] at hold
        cases hold
        exact hseq ▸ hlt
      · intro w hw
        rcases List.mem_append.mp hw with hw | hw
        · exact hkeeps.below (h.below w hw)
        · obtain rfl := List.mem_singleton.mp hw
          exact hpast
  | deliver turn now =>
    dsimp only [apply]
    split
    · exact h
    · rename_i groupId appended hw
      obtain ⟨rows, queue, hgrows⟩ := HomeServer.deliverCopies_grows crypto s.home now appended.outers
      rw [hgrows.appended, hgrows.outbound, List.drop_left, List.drop_left]
      refine ⟨?_, h.rising.sublist (List.eraseIdx_sublist _ _),
        fun w hw ↦ h.below w (List.mem_of_mem_eraseIdx hw), ?_, ?_⟩
      · rw [List.map_append, List.map_append, List.map_map, List.map_map]
        simpa using h.grows.trans hgrows
      · rw [List.map_append]
        refine h.rows.deliver h hturn hw ?_ _ rfl rfl
        simp
      · rw [List.map_append]
        refine h.queue.deliver h hturn hw ?_ _ rfl rfl
        simp

/-- Delivered in order of the tags, under rising numbers: so the numbers are in order of the tags. -/
theorem FanoutState.Inv.inOrder (h : s.Inv home) : s.InOrder where
  rows e he e' he' := by
    have htags := List.pairwise_map.mp h.rows.rising
    have hnumbers := List.pairwise_map.mp h.grows.rising
    have hself : ∀ e ∈ s.rows, RowsInOrder e e := fun e _ _ _ hlt ↦ absurd hlt (lt_irrefl _)
    have hforward : s.rows.Pairwise RowsInOrder := htags.imp fun hle hid _ _ ↦ hle hid
    have hbackward : s.rows.Pairwise (flip RowsInOrder) :=
      hnumbers.imp fun hlt _ hbox hlt' ↦ absurd hlt' (hlt hbox.symm).asymm
    exact List.Pairwise.forall_of_forall_of_flip hself hforward hbackward he he'
  queue := (List.pairwise_map.mp h.queue.rising).imp fun htags hid _ ↦ htags hid

/-- Requests that deliver their copies in the order in which they got their numbers deliver them in
the order of the stream, to every mailbox and every other server. -/
theorem fanout_in_order (crypto : Crypto) (home : HomeServer) (groups : GroupHost)
    (steps : List FanoutStep)
    (hturn : Allowed (fun s step ↦ FanoutStep.apply crypto s step) (fun s step ↦ step.InTurn s)
      (.start home groups) steps) :
    let s := run (fun s step ↦ FanoutStep.apply crypto s step) (.start home groups) steps
    s.home.history.appended = home.history.appended ++ s.rows.map Prod.snd ∧
      s.home.outbound = home.outbound ++ s.queue.map Prod.snd ∧ s.InOrder := by
  intro s
  have hinv : s.Inv home := run_invariant (fun s : FanoutState ↦ s.Inv home)
    (fun _ step hstep h ↦ step.inv hstep h) hturn (FanoutState.inv_start home groups)
  exact ⟨hinv.grows.appended, hinv.grows.outbound, hinv.inOrder⟩

end Runs

/-- A server with one mailbox and a group of which its owner is the only member. -/
def FanoutState.single (key : Key) : FanoutState :=
  .start
    (run (fun home op ↦ op.apply .transparent home) (HomeServer.new .transparent ⟨key, key⟩ key)
      [HomeOp.register key key, .mintContactCapability key key])
    (GroupHost.single key)

/-- An append by the member of that group. -/
def FanoutStep.appendBy (key draw : Key) : FanoutStep :=
  .append ⟨⟨key⟩, ⟨key, key⟩, .mlsApp, [1]⟩ 1700000000 fun _ ↦ (draw, draw)

set_option maxRecDepth 100000 in
/-- Two requests, delivered as they got their numbers. -/
theorem fanout_in_order_of_two_appends :
    let key : Key := .replicate 32 7
    let start := FanoutState.single key
    let steps : List FanoutStep := [.appendBy key (.replicate 32 1), .appendBy key (.replicate 32 2),
      .deliver 0 1700000000, .deliver 0 1700000000]
    let s := run (fun s step ↦ FanoutStep.apply .transparent s step) start steps
    s.rows.map (fun e ↦ (e.1.2, e.2.2.seq)) = [(1, 1), (2, 2)] ∧ s.InOrder := by
  intro key start steps s
  refine ⟨by decide +kernel, ?_⟩
  have hturn : Allowed (fun s step ↦ FanoutStep.apply .transparent s step)
      (fun s step ↦ step.InTurn s) start steps :=
    ⟨trivial, trivial, nofun, nofun, trivial⟩
  exact (fanout_in_order .transparent start.home start.groups steps hturn).2.2

set_option maxRecDepth 100000 in
/-- The second request gets to the home server first, and its row is first in the mailbox. -/
theorem fanout_out_of_order :
    let key : Key := .replicate 32 7
    let steps : List FanoutStep := [.appendBy key (.replicate 32 1), .appendBy key (.replicate 32 2),
      .deliver 1 1700000000, .deliver 0 1700000000]
    ¬ (run (fun s step ↦ FanoutStep.apply .transparent s step) (.single key) steps).InOrder := by
  intro key steps hinOrder
  obtain ⟨e, he, e', he', hviolates⟩ : ∃ e ∈ (run (fun s step ↦ FanoutStep.apply .transparent s step)
        (.single key) steps).rows, ∃ e' ∈ (run (fun s step ↦ FanoutStep.apply .transparent s step)
        (.single key) steps).rows, e.1.1 = e'.1.1 ∧ e.2.1 = e'.2.1 ∧ e.2.2.seq < e'.2.2.seq ∧
          e'.1.2 < e.1.2 := by
    decide +kernel
  obtain ⟨hid, hbox, hlt, htags⟩ := hviolates
  exact absurd (hinOrder.rows e he e' he' hid hbox hlt) (Nat.not_le.mpr htags)

end NemoMessenger.Server
