import NemoMessenger.Server.Node
import NemoMessenger.Server.Federation

/-!
# Answers and what the database holds

Requests and frames change memory, `persist` writes the changes to the database, and an answer goes
out. `persist_after` persists before the answer to a request leaves; `handle_inbound` writes the
reply to a frame and persists afterwards. A failure of `persist` is logged and the answer leaves all
the same. Exchanges run side by side, and the server can stop at any point.
-/

namespace NemoMessenger.Server

open NemoMessenger.Data NemoMessenger.Wire

/-- What the loop of `handle_inbound` does with a frame under the lock: the reply, when there is
one. -/
def HomeServer.handleFrame (crypto : Crypto) (home : HomeServer) (peer : ServerId)
    (frame : S2sFrame) : Outcome (Option S2sFrame) :=
  match home.acceptFrame crypto peer frame with
  | (.ok payload, home) =>
    if payload.isEmpty then (.ok none, home)
    else
      match home.takeFrame peer payload with
      | (.error e, home) => (.error e, home)
      | (.ok reply, home) => (.ok (some reply), home)
  | (.error .counterGap, home) => (.error .counterGap, home.resetLink peer)
  | (.error e, home) => (.error e, home)

/-- A payload that reports success. -/
def reportsOk (payload : Bytes) : Bool :=
  match parsePayload payload with
  | .ok (.ok _) => true
  | _ => false

/-! ## Exchanges -/

/-- Where an exchange stands. -/
inductive Phase
  /-- The handler of a request is at work. -/
  | working
  /-- `persist_after` has called `persist`; the answer has not left. -/
  | persisted
  /-- A frame has been accepted; its reply, which may report success, has not been written. -/
  | accepted (ok : Bool)
  /-- The reply has been written; `persist` has not been called. -/
  | written
  deriving DecidableEq

/-- A request or a frame the server is busy with. -/
structure Exchange where
  phase : Phase
  /-- The state of memory in which its work was done, as an index into the trace. -/
  done : ℕ
  deriving DecidableEq

/-- A server with its exchanges. -/
structure Serving where
  node : Node
  /-- Memory after every section under the locks, without the journals. -/
  trace : List (HomeServer × GroupHost)
  /-- The length of the trace when `persist` last succeeded. -/
  lastPersist : ℕ
  exchanges : FiniteMap ℕ Exchange
  /-- For every answer that reported success, the state of memory in which its work was done. -/
  told : List ℕ

/-- Memory without the journals. -/
def Node.memory (node : Node) : HomeServer × GroupHost :=
  ({ node.home with dirty := {}, history := {} }, { node.host with dirty := {} })

/-- What can happen; exchanges are told apart by numbers. -/
inductive ServingEvent
  /-- A handler works on the home server. -/
  | home (id : ℕ) (op : HomeOp)
  /-- A handler works on the groups. -/
  | group (id : ℕ) (op : GroupOp)
  /-- The handler has succeeded, and `persist_after` calls `persist`. -/
  | persistAfter (id : ℕ) (fault : Bool)
  /-- The answer of a successful request leaves the server. -/
  | answer (id : ℕ)
  /-- `handle_inbound` has read a frame. -/
  | frame (id : ℕ) (peer : ServerId) (frame : S2sFrame)
  /-- `handle_inbound` writes the reply. -/
  | writeReply (id : ℕ)
  /-- `handle_inbound` calls `persist`. -/
  | persistFrame (id : ℕ) (fault : Bool)
  /-- The background loop calls `persist`. -/
  | persist (fault : Bool)
  /-- The server stops at this point and starts again. -/
  | restart

namespace Serving

variable (crypto : Crypto)

/-- Memory has changed under the locks. -/
def advance (s : Serving) (node : Node) : Serving :=
  { s with node, trace := s.trace ++ [node.memory] }

/-- An exchange has done some work. -/
def work (s : Serving) (id : ℕ) (phase : Phase) (node : Node) : Serving :=
  { s.advance node with exchanges := s.exchanges.insert id ⟨phase, s.trace.length⟩ }

/-- A call of `persist`, whose failure is only logged. -/
def persist (s : Serving) (fault : Bool) : Serving :=
  match s.node.persist fault with
  | (.ok (), node) => { s with node, lastPersist := s.trace.length }
  | (.error _, node) => { s with node }

/-- What an event does. Events that are out of order do nothing. -/
def apply (s : Serving) : ServingEvent → Serving
  | .home id op => s.work id .working { s.node with home := op.apply crypto s.node.home }
  | .group id op => s.work id .working { s.node with host := op.apply crypto s.node.host }
  | .persistAfter id fault =>
    match s.exchanges.lookup id with
    | some ⟨.working, done⟩ =>
      { s.persist fault with exchanges := s.exchanges.insert id ⟨.persisted, done⟩ }
    | _ => s
  | .answer id =>
    match s.exchanges.lookup id with
    | some ⟨.persisted, done⟩ =>
      { s with told := s.told ++ [done], exchanges := s.exchanges.erase id }
    | _ => s
  | .frame id peer frame =>
    match s.node.home.handleFrame crypto peer frame with
    | (.ok (some reply), home) => s.work id (.accepted (reportsOk reply.payload)) { s.node with home }
    | (.ok none, home) => s.work id .written { s.node with home }
    | (.error _, home) => s.advance { s.node with home }
  | .writeReply id =>
    match s.exchanges.lookup id with
    | some ⟨.accepted ok, done⟩ =>
      { s with
        told := if ok then s.told ++ [done] else s.told
        exchanges := s.exchanges.insert id ⟨.written, done⟩ }
    | _ => s
  | .persistFrame id fault =>
    match s.exchanges.lookup id with
    | some ⟨.written, _⟩ => { s.persist fault with exchanges := s.exchanges.erase id }
    | _ => s
  | .persist fault => s.persist fault
  | .restart => { s.advance (s.node.reload crypto) with exchanges := ∅ }

/-- A server that `load_or_init` has just started and stored. -/
def boot (hpke : HpkeKeypair) (sign : Key) (host : Text) (s2sPort : UInt16) : Serving where
  node := ((Node.first crypto hpke sign host s2sPort).persist false).2
  trace := [(Node.first crypto hpke sign host s2sPort).memory]
  lastPersist := 1
  exchanges := ∅
  told := []

/-- The database holds a state of memory in which the work of every exchange was done that was told
of success. -/
def Durable (s : Serving) : Prop :=
  ∀ done ∈ s.told, ∃ v home host, done ≤ v ∧ s.trace[v]? = some (home, host) ∧
    ∃ home' host', s.node.db.loadKeys crypto (some (home.hpke, home.sign)) =
        .ok (some (home', host')) ∧
      home.SameDurable home' ∧ host.SameDurable host'

end Serving

/-- The conditions under which persistence is promised. -/
def ServingEvent.Admissible (s : Serving) : ServingEvent → Prop
  | .home _ op => op.Admissible s.node.home
  | .group _ op => op.Admissible s.node.host
  | _ => True

/-- An answer that reports success leaves after a `persist` has succeeded since its work was done. -/
def ServingEvent.PersistedFirst (s : Serving) : ServingEvent → Prop
  | .answer id => ∀ done, s.exchanges.lookup id = some ⟨.persisted, done⟩ → done < s.lastPersist
  | .writeReply id =>
    ∀ done, s.exchanges.lookup id = some ⟨.accepted true, done⟩ → done < s.lastPersist
  | _ => True

/-! ## What the database holds -/

namespace Serving

variable {crypto : Crypto} {s : Serving}

/-- The database was saved from some state of memory, no earlier than `persist` last succeeded. -/
structure Backed (s : Serving) : Prop extends s.node.InStep where
  saved : ∃ v home host, s.trace[v]? = some (home, host) ∧ s.lastPersist ≤ v + 1 ∧
    Saved home host s.node.db ∧ home.hpke = s.node.home.hpke ∧ home.sign = s.node.home.sign
  last : s.trace.getLast? = some s.node.memory
  done : ∀ id e, s.exchanges.lookup id = some e → e.done < s.trace.length
  told : ∀ done ∈ s.told, done < s.lastPersist

theorem memory_saved {node : Node} {db : Database} (h : Saved node.home node.host db) :
    Saved node.memory.1 node.memory.2 db := h.drain {} {} {}

theorem Backed.durable (h : s.Backed) : s.Durable crypto := by
  intro done hdone
  obtain ⟨v, home, host, hv, hlast, hsaved, -, -⟩ := h.saved
  obtain ⟨home', host', hload, hreloads, hsame, -⟩ := loadKeys_eq_ok crypto hsaved
  have hlt := h.told done hdone
  exact ⟨v, home, host, by omega, hv, home', host', hload, hreloads.toSameDurable, hsame⟩

theorem Backed.lastPersist_le (h : s.Backed) : s.lastPersist ≤ s.trace.length := by
  obtain ⟨v, home, host, hv, hlast, -⟩ := h.saved
  obtain ⟨hlt, -⟩ := List.getElem?_eq_some_iff.mp hv
  omega

/-- Work under the locks leaves the database alone. -/
theorem Backed.advance (h : s.Backed) {node : Node} (hnode : node.InStep)
    (hdb : node.db = s.node.db) (hhpke : node.home.hpke = s.node.home.hpke)
    (hsign : node.home.sign = s.node.home.sign) : (s.advance node).Backed where
  toInStep := hnode
  saved := by
    obtain ⟨v, home, host, hv, hlast, hsaved, hkeys, hkeys'⟩ := h.saved
    obtain ⟨hlt, -⟩ := List.getElem?_eq_some_iff.mp hv
    refine ⟨v, home, host, ?_, hlast, ?_, hkeys.trans hhpke.symm, hkeys'.trans hsign.symm⟩
    · rw [Serving.advance, List.getElem?_append_left hlt]
      exact hv
    · rw [Serving.advance, hdb]
      exact hsaved
  last := List.getLast?_concat
  done id e he := by
    rw [Serving.advance, List.length_append]
    exact (h.done id e he).trans_le (Nat.le_add_right _ _)
  told := h.told

theorem Backed.exchange (h : s.Backed) {exchanges : FiniteMap ℕ Exchange}
    (hdone : ∀ id e, exchanges.lookup id = some e → e.done < s.trace.length) :
    Backed { s with exchanges } :=
  ⟨h.toInStep, h.saved, h.last, hdone, h.told⟩

theorem Backed.work (h : s.Backed) {node : Node} (hnode : node.InStep)
    (hdb : node.db = s.node.db) (hhpke : node.home.hpke = s.node.home.hpke)
    (hsign : node.home.sign = s.node.home.sign) (id : ℕ) (phase : Phase) :
    (s.work id phase node).Backed := by
  have hadvance := h.advance hnode hdb hhpke hsign
  refine hadvance.exchange fun id' e he ↦ ?_
  rw [FiniteMap.lookup_insert_ite] at he
  split_ifs at he
  · cases he
    rw [Serving.advance, List.length_append]
    exact Nat.lt_succ_self _
  · exact hadvance.done id' e he

/-- A `persist` that succeeds stores the memory of this moment; one that fails stores nothing. -/
theorem Backed.persist (h : s.Backed) (fault : Bool) : (s.persist fault).Backed := by
  unfold Serving.persist
  rcases Node.persist_cases h.toInStep fault with ⟨db, heq, hsaved⟩ | ⟨-, heq⟩
  · have hdrained := hsaved.drain {} {} s.node.home.history
    have hmemory := memory_saved hsaved
    have hlen : s.trace.length ≤ s.trace.length - 1 + 1 := by omega
    rw [heq]
    dsimp only
    refine { toInStep := ?_, saved := ?_, last := ?_, done := ?_, told := ?_ }
    · exact hdrained.inStep rfl rfl
    · refine ⟨s.trace.length - 1, _, _, ?_, hlen, hmemory, rfl, rfl⟩
      rw [← List.getLast?_eq_getElem?]
      exact h.last
    · exact h.last
    · exact h.done
    · exact fun done hdone ↦ (h.told done hdone).trans_le h.lastPersist_le
  · rw [heq]
    dsimp only
    refine { toInStep := ?_, saved := ?_, last := ?_, done := ?_, told := ?_ }
    · exact ⟨h.homeValid.drain _ s.node.home.history, h.homeSynced.absorb, h.hostValid.drain _,
        h.hostSynced.absorb⟩
    · exact h.saved
    · exact h.last
    · exact h.done
    · exact h.told

theorem Backed.recoverable (h : s.Backed) : s.node.Recoverable := by
  obtain ⟨v, home, host, -, -, hsaved, hkeys⟩ := h.saved
  exact ⟨h.toInStep, .inr ⟨home, host, hsaved, hkeys⟩⟩

/-- A restart loads what the database was saved from. -/
theorem Backed.restart (h : s.Backed) :
    Backed { s.advance (s.node.reload crypto) with exchanges := ∅ } := by
  have hnode : (s.node.reload crypto).Recoverable := h.recoverable.apply .reload trivial
  obtain ⟨v, home, host, hv, hlast, hsaved, hhpke, hsign⟩ := h.saved
  obtain ⟨hlt, -⟩ := List.getElem?_eq_some_iff.mp hv
  obtain ⟨home', host', hload, hreloads, hsame, hdirty, hsaved'⟩ := loadKeys_eq_ok crypto hsaved
  have hreload : s.node.reload crypto =
      { s.node with home := { home' with history := s.node.home.history }, host := host' } := by
    rw [Node.reload, ← hhpke, ← hsign, hload]
  have hmemory : Saved (s.node.reload crypto).memory.1 (s.node.reload crypto).memory.2
      (s.node.reload crypto).db := by
    rw [hreload]
    exact hsaved'.drain {} {} {}
  refine { toInStep := hnode.toInStep, saved := ?_, last := ?_, done := ?_, told := ?_ }
  · refine ⟨s.trace.length, _, _, List.getElem?_concat_length, ?_, hmemory, rfl, rfl⟩
    exact hlast.trans (Nat.succ_le_succ hlt.le)
  · exact List.getLast?_concat
  · exact fun id e he ↦ by cases he
  · exact h.told

/-- The operations a frame is handled by. -/
theorem handleFrame_ops (crypto : Crypto) (home : HomeServer) (peer : ServerId) (frame : S2sFrame) :
    ∃ later : List HomeOp, (∀ op ∈ later, ∀ home, op.Admissible home) ∧
      (home.handleFrame crypto peer frame).2 =
        run (HomeOp.apply crypto) home (.acceptFrame peer frame :: later) := by
  unfold HomeServer.handleFrame
  have hrun (op : HomeOp) : run (HomeOp.apply crypto) home [.acceptFrame peer frame, op] =
      op.apply crypto (home.acceptFrame crypto peer frame).2 := rfl
  split
  · rename_i payload accepted heq
    split_ifs
    · exact ⟨[], nofun, congrArg Prod.snd heq.symm⟩
    · refine ⟨[.takeFrame peer payload], fun op hop home ↦ ?_, ?_⟩
      · rw [List.mem_singleton.mp hop]
        trivial
      · rw [hrun, heq, HomeOp.apply]
        dsimp only
        split
        all_goals
          rename_i htake
          rw [htake]
  · rename_i accepted heq
    refine ⟨[.resetLink peer], fun op hop home ↦ ?_, ?_⟩
    · rw [List.mem_singleton.mp hop]
      trivial
    · rw [hrun, heq]
      rfl
  · rename_i heq
    exact ⟨[], nofun, congrArg Prod.snd heq.symm⟩

/-- Sections that keep the conditions keep node and database in step. -/
theorem Backed.homeOps (h : s.Backed) (crypto : Crypto) (ops : List HomeOp)
    (hops : Allowed (HomeOp.apply crypto) (fun home op ↦ op.Admissible home) s.node.home ops) :
    Node.InStep { s.node with home := run (HomeOp.apply crypto) s.node.home ops } ∧
      (run (HomeOp.apply crypto) s.node.home ops).hpke = s.node.home.hpke ∧
      (run (HomeOp.apply crypto) s.node.home ops).sign = s.node.home.sign := by
  have hnode := run_invariant
    (fun home ↦ Node.Recoverable { s.node with home } ∧ home.hpke = s.node.home.hpke ∧
      home.sign = s.node.home.sign)
    (fun home op hop hs ↦ ?_) hops ⟨h.recoverable, rfl, rfl⟩
  · exact ⟨hnode.1.toInStep, hnode.2⟩
  · obtain ⟨hhpke, hsign⟩ := op.keys_apply crypto home
    have hadmissible : NodeOp.Admissible { s.node with home } (.home op) := hop
    exact ⟨hs.1.apply (.home op) hadmissible, hhpke.trans hs.2.1, hsign.trans hs.2.2⟩

/-- What a frame does under the lock keeps node and database in step. -/
theorem Backed.handleFrame (h : s.Backed) (crypto : Crypto) (peer : ServerId) (frame : S2sFrame) :
    Node.InStep { s.node with home := (s.node.home.handleFrame crypto peer frame).2 } ∧
      (s.node.home.handleFrame crypto peer frame).2.hpke = s.node.home.hpke ∧
      (s.node.home.handleFrame crypto peer frame).2.sign = s.node.home.sign := by
  obtain ⟨later, hlater, heq⟩ := handleFrame_ops crypto s.node.home peer frame
  have hallowed {ops : List HomeOp} (hops : ∀ op ∈ ops, ∀ home, op.Admissible home)
      (home : HomeServer) :
      Allowed (HomeOp.apply crypto) (fun home op ↦ op.Admissible home) home ops := by
    induction ops generalizing home with
    | nil => trivial
    | cons op ops ih =>
      exact ⟨hops op List.mem_cons_self home,
        ih (fun op hop ↦ hops op (List.mem_cons_of_mem _ hop)) _⟩
  rw [heq]
  exact h.homeOps crypto (.acceptFrame peer frame :: later) ⟨trivial, hallowed hlater _⟩

theorem backed_boot (hpke : HpkeKeypair) (sign : Key) (host : Text) (s2sPort : UInt16) :
    (boot crypto hpke sign host s2sPort).Backed := by
  have hfirst := Node.inStep_first crypto hpke sign host s2sPort
  rcases Node.persist_cases hfirst false with ⟨db, heq, hsaved⟩ | ⟨hfault, -⟩
  · have hdrained := hsaved.drain {} {} (Node.first crypto hpke sign host s2sPort).home.history
    unfold boot
    rw [heq]
    refine { toInStep := ?_, saved := ?_, last := ?_, done := ?_, told := ?_ }
    · exact hdrained.inStep rfl rfl
    · exact ⟨0, _, _, rfl, le_rfl, memory_saved hsaved, rfl, rfl⟩
    · rfl
    · exact fun id e he ↦ by cases he
    · exact fun done hdone ↦ by cases hdone
  · cases hfault

theorem trace_persist (s : Serving) (fault : Bool) : (s.persist fault).trace = s.trace := by
  unfold Serving.persist
  split <;> rfl

theorem Backed.lt_of_insert (h : s.Backed) {id done : ℕ} (phase : Phase)
    (hdone : done < s.trace.length) (id' : ℕ) (e : Exchange)
    (he : (s.exchanges.insert id ⟨phase, done⟩).lookup id' = some e) :
    e.done < s.trace.length := by
  rw [FiniteMap.lookup_insert_ite] at he
  split_ifs at he
  · cases he
    exact hdone
  · exact h.done id' e he

theorem Backed.lt_of_erase (h : s.Backed) {id : ℕ} (id' : ℕ) (e : Exchange)
    (he : (s.exchanges.erase id).lookup id' = some e) : e.done < s.trace.length := by
  rw [FiniteMap.lookup_erase_ite] at he
  split_ifs at he
  exact h.done id' e he

/-- A report of success is remembered. -/
theorem Backed.tell (h : s.Backed) {done : ℕ} (hdone : done < s.lastPersist) :
    Backed { s with told := s.told ++ [done] } := by
  refine ⟨h.toInStep, h.saved, h.last, h.done, fun done' hmem ↦ ?_⟩
  rcases List.mem_append.mp hmem with hold | hnew
  · exact h.told done' hold
  · rw [List.mem_singleton.mp hnew]
    exact hdone

/-- Every event keeps the database backed, when success is reported after a `persist`. -/
theorem Backed.apply (h : s.Backed) (event : ServingEvent) (hadmissible : event.Admissible s)
    (hfirst : event.PersistedFirst s) : (s.apply crypto event).Backed := by
  cases event with
  | home id op =>
    obtain ⟨hnode, hhpke, hsign⟩ := h.homeOps crypto [op] ⟨hadmissible, trivial⟩
    exact h.work hnode rfl hhpke hsign id .working
  | group id op =>
    have hop : NodeOp.Admissible s.node (.group op) := hadmissible
    exact h.work (h.recoverable.apply (.group op) hop).toInStep rfl rfl rfl id .working
  | persistAfter id fault =>
    rw [Serving.apply]
    split
    · rename_i done hlookup
      refine (h.persist fault).exchange ?_
      rw [trace_persist]
      exact h.lt_of_insert .persisted (h.done id _ hlookup)
    · exact h
  | answer id =>
    rw [Serving.apply]
    split
    · rename_i done hlookup
      exact (h.tell (hfirst done hlookup)).exchange h.lt_of_erase
    · exact h
  | frame id peer frame =>
    obtain ⟨hnode, hhpke, hsign⟩ := h.handleFrame crypto peer frame
    rw [Serving.apply]
    split
    all_goals
      rename_i home hframe
      rw [hframe] at hnode hhpke hsign
    · exact h.work hnode rfl hhpke hsign id _
    · exact h.work hnode rfl hhpke hsign id _
    · exact h.advance hnode rfl hhpke hsign
  | writeReply id =>
    rw [Serving.apply]
    split
    · rename_i ok done hlookup
      have hdone := h.done id _ hlookup
      cases ok with
      | true => exact (h.tell (hfirst done hlookup)).exchange (h.lt_of_insert .written hdone)
      | false => exact h.exchange (h.lt_of_insert .written hdone)
    · exact h
  | persistFrame id fault =>
    rw [Serving.apply]
    split
    · refine (h.persist fault).exchange ?_
      rw [trace_persist]
      exact h.lt_of_erase
    · exact h
  | persist fault => exact h.persist fault
  | restart => exact h.restart

theorem backed_run {hpke : HpkeKeypair} {sign : Key} {host : Text} {s2sPort : UInt16}
    {events : List ServingEvent} (hevents : Allowed (Serving.apply crypto)
      (fun s event ↦ event.Admissible s ∧ event.PersistedFirst s)
      (boot crypto hpke sign host s2sPort) events) :
    (run (Serving.apply crypto) (boot crypto hpke sign host s2sPort) events).Backed :=
  run_invariant Backed (fun _ event hevent hs ↦ hs.apply event hevent.1 hevent.2) hevents
    (backed_boot hpke sign host s2sPort)

/-- What a client or a peer was told had succeeded is in the database, in every run in which each
such answer leaves after a `persist` has succeeded since the work was done. -/
theorem durable_of_persisted_first (crypto : Crypto) (hpke : HpkeKeypair) (sign : Key)
    (host : Text) (s2sPort : UInt16) (events : List ServingEvent)
    (hevents : Allowed (Serving.apply crypto)
      (fun s event ↦ event.Admissible s ∧ event.PersistedFirst s)
      (boot crypto hpke sign host s2sPort) events) :
    (run (Serving.apply crypto) (boot crypto hpke sign host s2sPort) events).Durable crypto :=
  (backed_run hevents).durable

/-- A mailbox is registered and stored, and the client is told. -/
theorem durable_of_register :
    let key : Key := .replicate 32 7
    let s := run (Serving.apply .transparent)
      (boot .transparent ⟨key, key⟩ key ⟨"local", by decide⟩ 8443)
      [.home 0 (.register key key), .persistAfter 0 false, .answer 0]
    s.told = [1] ∧ s.Durable .transparent := by
  intro key s
  refine ⟨by decide +kernel, ?_⟩
  refine durable_of_persisted_first .transparent ⟨key, key⟩ key ⟨"local", by decide⟩ 8443
    [.home 0 (.register key key), .persistAfter 0 false, .answer 0]
    ⟨⟨trivial, trivial⟩, ⟨trivial, trivial⟩, ⟨trivial, fun done hdone ↦ ?_⟩, trivial⟩
  have hlookup : (run (Serving.apply .transparent)
      (boot .transparent ⟨key, key⟩ key ⟨"local", by decide⟩ 8443)
      [.home 0 (.register key key), .persistAfter 0 false]).exchanges.lookup 0 =
        some ⟨.persisted, 1⟩ := by decide +kernel
  have hlast : (run (Serving.apply .transparent)
      (boot .transparent ⟨key, key⟩ key ⟨"local", by decide⟩ 8443)
      [.home 0 (.register key key), .persistAfter 0 false]).lastPersist = 2 := by decide +kernel
  cases Option.some.inj (hlookup.symm.trans hdone)
  exact Nat.lt_of_lt_of_eq (by decide) hlast.symm

/-- The row a mailbox has under a number. -/
def rowOf (home : HomeServer) (m : IdentityId) (seq : ℕ) : Option StoredEnvelope :=
  (home.mailboxes.lookup m).bind fun box ↦ box.rows.lookup seq

theorem rowOf_eq {home home' : HomeServer} (h : home.SameDurable home') (m : IdentityId)
    (seq : ℕ) : rowOf home' m seq = rowOf home m seq := by
  unfold rowOf
  have hrel := h.mailboxes m
  cases hbox : home.mailboxes.lookup m with
  | none =>
    rw [hbox] at hrel
    cases hbox' : home'.mailboxes.lookup m with
    | none => rfl
    | some box' =>
      rw [hbox'] at hrel
      cases hrel
  | some box =>
    obtain ⟨box', hbox', hsame⟩ := h.lookup_some hbox
    rw [hbox']
    exact hsame.rows seq

/-! ## Which answers come after a persist -/

theorem apply_frame {id : ℕ} {peer : ServerId} {frame reply : S2sFrame} {home : HomeServer}
    (hframe : s.node.home.handleFrame crypto peer frame = (.ok (some reply), home)) :
    s.apply crypto (.frame id peer frame) =
      s.work id (.accepted (reportsOk reply.payload)) { s.node with home } := by
  rw [Serving.apply, hframe]

theorem apply_writeReply {id done : ℕ} {ok : Bool}
    (hlookup : s.exchanges.lookup id = some ⟨.accepted ok, done⟩) :
    s.apply crypto (.writeReply id) =
      { s with
        told := if ok then s.told ++ [done] else s.told
        exchanges := s.exchanges.insert id ⟨.written, done⟩ } := by
  rw [Serving.apply, hlookup]

/-- A row that comes in with a frame is not in the database when the peer is told. -/
theorem Backed.not_durable_of_frame (h : s.Backed) (hlast : s.lastPersist = s.trace.length)
    {id : ℕ} {peer : ServerId} {frame : S2sFrame}
    (hreply : ((s.node.home.handleFrame crypto peer frame).1.toOption.join).any
      (fun reply ↦ reportsOk reply.payload) = true) {m : IdentityId} {seq : ℕ}
    (hold : rowOf s.node.home m seq = none)
    (hnew : (rowOf (s.node.home.handleFrame crypto peer frame).2 m seq).isSome) :
    ¬ ((s.apply crypto (.frame id peer frame)).apply crypto (.writeReply id)).Durable crypto := by
  obtain ⟨reply, home, hframe, hok⟩ : ∃ reply home,
      s.node.home.handleFrame crypto peer frame = (.ok (some reply), home) ∧
        reportsOk reply.payload = true := by
    rcases hresult : s.node.home.handleFrame crypto peer frame with ⟨_ | _ | reply, home⟩
    · rw [hresult] at hreply
      cases hreply
    · rw [hresult] at hreply
      cases hreply
    · rw [hresult] at hreply
      exact ⟨reply, home, rfl, hreply⟩
  rw [hframe] at hnew
  intro hdurable
  obtain ⟨-, hhpke, hsign⟩ := h.handleFrame crypto peer frame
  rw [hframe] at hhpke hsign
  obtain ⟨v, home₀, host₀, hv, hbound, hsaved, hkeys, hkeys'⟩ := h.saved
  obtain ⟨hlt, -⟩ := List.getElem?_eq_some_iff.mp hv
  have hmemory := h.last
  rw [List.getLast?_eq_getElem?, show s.trace.length - 1 = v by omega, hv] at hmemory
  have hold' : rowOf home₀ m seq = none := by
    rw [show home₀ = s.node.memory.1 from congrArg Prod.fst (Option.some.inj hmemory)]
    exact hold
  have htold : s.trace.length ∈
      ((s.apply crypto (.frame id peer frame)).apply crypto (.writeReply id)).told := by
    rw [apply_frame hframe, hok, apply_writeReply (AList.lookup_insert _)]
    exact List.mem_append_right _ List.mem_cons_self
  obtain ⟨v', home₁, host₁, hle, hv', home', host', hload, hsame, -⟩ := hdurable _ htold
  rw [apply_frame hframe, hok, apply_writeReply (AList.lookup_insert _)] at hv' hload
  obtain ⟨home'', host'', hload', hreloads, -⟩ := loadKeys_eq_ok crypto hsaved
  obtain ⟨hzero, heq⟩ := List.getElem?_eq_some_iff.mp
    ((List.getElem?_append_right hle).symm.trans hv')
  rw [List.getElem_singleton] at heq
  cases heq
  change s.node.db.loadKeys crypto (some (home.hpke, home.sign)) = _ at hload
  rw [hhpke, hsign, ← hkeys, ← hkeys', hload'] at hload
  cases hload
  have hrow : rowOf home m seq = rowOf home₀ m seq :=
    (rowOf_eq hsame m seq).symm.trans (rowOf_eq hreloads.toSameDurable m seq)
  rw [hrow, hold'] at hnew
  cases hnew

/-- A mailbox with a capability and a pinned peer, all of it stored. -/
def setup : List ServingEvent :=
  [.home 0 (.register (.replicate 32 1) (.replicate 32 1)),
    .home 0 (.mintContactCapability (.replicate 32 1) (.replicate 32 1)),
    .home 0 (.pin (HomeServer.signedBundle .transparent ⟨.replicate 32 2, .replicate 32 2⟩
      (.replicate 32 2) ⟨"peer", by decide⟩ 8443)), .persist false]

set_option maxRecDepth 100000 in
/-- A peer is told `ok` for an envelope that is not in the database, though no `persist` failed. -/
theorem not_durable_after_frame :
    let start := boot .transparent ⟨.replicate 32 1, .replicate 32 1⟩ (.replicate 32 1)
      ⟨"local", by decide⟩ 8443
    let events := setup ++ [.frame 1 (.replicate 32 2)
      ⟨1, (OuterEnvelope.blank (.replicate 32 1)).hpkeCiphertext⟩, .writeReply 1]
    Allowed (Serving.apply .transparent) (fun s event ↦ event.Admissible s) start events ∧
      (run (Serving.apply .transparent) start events).told = [4] ∧
      ¬ (run (Serving.apply .transparent) start events).Durable .transparent := by
  intro start events
  have hstored : (run (Serving.apply .transparent) start setup).Backed :=
    backed_run ⟨⟨trivial, trivial⟩, ⟨List.not_mem_nil, trivial⟩, ⟨trivial, trivial⟩,
      ⟨trivial, trivial⟩, trivial⟩
  refine ⟨⟨trivial, List.not_mem_nil, trivial, trivial, trivial, trivial, trivial⟩,
    by decide +kernel, ?_⟩
  have hpair (s : Serving) (event event' : ServingEvent) :
      run (Serving.apply .transparent) s [event, event'] =
        (s.apply .transparent event).apply .transparent event' := rfl
  rw [run_append, hpair]
  have hold : rowOf (run (Serving.apply .transparent) start setup).node.home (.replicate 32 1) 1 =
      none := by
    decide +kernel
  refine hstored.not_durable_of_frame ?_ ?_ hold ?_
  · decide +kernel
  · decide +kernel
  · decide +kernel

end Serving

end NemoMessenger.Server
