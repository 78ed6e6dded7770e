import NemoMessenger.Data.ReplayGuard
import NemoMessenger.Server.Manage
import NemoMessenger.Server.Issued

/-!
# Owner signatures are accepted once

`check_owner` is a replay guard behind a signature: it accepts a call within the window of its time
stamp, for the scope it names, and only once between two restarts.
-/

namespace NemoMessenger.Server

open NemoMessenger.Data NemoMessenger.Wire

namespace OwnerCall

variable (crypto : Crypto) (home : HomeServer) (call : OwnerCall)

/-- The call, made at a server. -/
def run : Outcome Unit := home.checkOwner crypto call.owner call.auth call.nowUnix call.expect

/-- The server accepts the call. -/
def accepted : Bool := (call.run crypto home).1.toOption.isSome

/-- What the guard remembers of a call. -/
def stamp : Key × ℕ := (call.auth.nonce, call.auth.ts.toNat)

end OwnerCall

/-- The call of `check_owner` an operation of a node starts with, and whether it is accepted. -/
def NodeOp.ownerCall (crypto : Crypto) (node : Node) : NodeOp → List (OwnerCall × Bool)
  | home op =>
    (op.ownerCall crypto node.home).toList.map fun call ↦ (call, call.accepted crypto node.home)
  | group _ | persist _ | reload => []

/-- The calls of `check_owner` in a run, in order. -/
def ownerCalls (crypto : Crypto) : Node → List NodeOp → List (OwnerCall × Bool)
  | _, [] => []
  | node, op :: ops => op.ownerCall crypto node ++ ownerCalls crypto (op.apply crypto node) ops

/-- Those that were accepted. -/
def acceptedCalls (crypto : Crypto) (node : Node) (ops : List NodeOp) : List OwnerCall :=
  ((ownerCalls crypto node ops).filter (·.2)).map (·.1)

/-! ## One call -/

section Call

variable {crypto : Crypto} {home : HomeServer} {call : OwnerCall}

theorem verify_of_ok {auth : MailboxOwnerAuth} {key : Key} {now : ℕ} {expect : AuthScope}
    (h : auth.verify crypto key now expect = .ok ()) :
    now - auth.ts.toNat ≤ MailboxOwnerAuth.maxAgeSecs ∧
      auth.ts.toNat ≤ now + MailboxOwnerAuth.maxAgeSecs ∧ auth.scope = expect := by
  unfold MailboxOwnerAuth.verify at h
  split_ifs at h with htime hscope
  rw [not_or, not_lt, not_lt] at htime
  exact ⟨htime.1, htime.2.trans (Nat.mod_le _ _), not_not.mp hscope⟩

/-- A call that is rejected records nothing; one that is accepted keeps to its window and its scope and
records its nonce, which was not remembered. -/
theorem OwnerCall.run_cases (crypto : Crypto) (home : HomeServer) (call : OwnerCall) :
    (call.accepted crypto home = false ∧
      ((call.run crypto home).2.ownerNonces = home.ownerNonces ∨
        (call.run crypto home).2.ownerNonces =
          ReplayGuard.prune MailboxOwnerAuth.maxAgeSecs call.nowUnix home.ownerNonces)) ∨
    (call.accepted crypto home = true ∧
      call.nowUnix - call.auth.ts.toNat ≤ MailboxOwnerAuth.maxAgeSecs ∧
      call.auth.ts.toNat ≤ call.nowUnix + MailboxOwnerAuth.maxAgeSecs ∧
      call.auth.scope = call.expect ∧
      (ReplayGuard.prune MailboxOwnerAuth.maxAgeSecs call.nowUnix home.ownerNonces).lookup
        call.auth.nonce = none ∧
      (call.run crypto home).2.ownerNonces =
        (ReplayGuard.prune MailboxOwnerAuth.maxAgeSecs call.nowUnix home.ownerNonces).insert
          call.auth.nonce call.auth.ts.toNat) := by
  unfold OwnerCall.accepted OwnerCall.run HomeServer.checkOwner
  split
  · exact .inl ⟨rfl, .inl rfl⟩
  · rename_i box _
    split_ifs
    · exact .inl ⟨rfl, .inl rfl⟩
    · exact .inl ⟨rfl, .inl rfl⟩
    · exact .inl ⟨rfl, .inl rfl⟩
    · split
      · exact .inl ⟨rfl, .inl rfl⟩
      · rename_i hverify
        obtain ⟨hold, hahead, hscope⟩ := verify_of_ok hverify
        dsimp only
        split_ifs with hknown
        · exact .inl ⟨rfl, .inr rfl⟩
        · exact .inr ⟨rfl, hold, hahead, hscope, Option.not_isSome_iff_eq_none.mp hknown, rfl⟩

/-- A rejected call records no nonce. -/
theorem OwnerCall.lookup_of_rejected (hrejected : call.accepted crypto home = false) {nonce : Key}
    {ts : ℕ} (h : (call.run crypto home).2.ownerNonces.lookup nonce = some ts) :
    home.ownerNonces.lookup nonce = some ts := by
  rcases call.run_cases crypto home with ⟨-, hsame | hpruned⟩ | ⟨haccepted, -⟩
  · rwa [hsame] at h
  · rw [hpruned] at h
    exact ReplayGuard.lookup_of_prune h
  · rw [hrejected] at haccepted
    cases haccepted

end Call

/-! ## Operations -/

section Operation

variable {crypto : Crypto} {home : HomeServer} {node : Node}

/-- Only `check_owner` touches the nonces. -/
theorem manages_ownerNonces (crypto : Crypto) (promises : Promises) :
    Manages crypto promises (fun home home' ↦ home'.ownerNonces = home.ownerNonces)
      fun home home' ↦ home'.ownerNonces = home.ownerNonces where
  trans h h' := h'.trans h
  aside h := h.ownerNonces
  drop _ _ _ := rfl
  disable _ _ := rfl
  append home inner := by
    rcases home.appendInner_cases inner with
      ⟨_, _, _, h⟩ | ⟨_, _, _, _, -, -, -, ⟨_, -, h⟩ | ⟨_, -, -, h⟩⟩ <;> rw [h]
  publish home owner blob := by
    unfold HomeServer.publishPrekey
    split <;> rfl
  fetch home token := by
    unfold HomeServer.fetchPrekey
    split
    · split_ifs
      · split
        · rfl
        · unfold HomeServer.reservePrekey
          split <;> rfl
      · rfl
    · rfl
  enter _ _ _ entry _ := by cases entry <;> rfl
  weaken h := h
  register _ _ h _ _ := h
  regrace _ h _ := h

theorem HomeOp.ownerNonces_of_none {op : HomeOp} (hnone : op.ownerCall crypto home = none) :
    (op.apply crypto home).ownerNonces = home.ownerNonces := by
  by_cases hclock : ∃ now, op = .setNow now
  · obtain ⟨now, rfl⟩ := hclock
    rfl
  · rw [not_exists] at hclock
    exact (manages_ownerNonces crypto .none).apply_ownerless (op.meets_none crypto home) hclock hnone

theorem ownerNonces_gcMailbox (home : HomeServer) (owner : IdentityId) :
    (home.gcMailbox owner).ownerNonces = home.ownerNonces := by
  unfold HomeServer.gcMailbox
  split
  · rfl
  · dsimp only
    split_ifs <;> rfl

/-- An operation that checks an owner changes the nonces as the check does. -/
theorem HomeOp.ownerNonces_of_some {op : HomeOp} {call : OwnerCall}
    (hcall : op.ownerCall crypto home = some call) :
    (op.apply crypto home).ownerNonces = (call.run crypto home).2.ownerNonces := by
  cases op <;> try cases hcall
  case checkOwner => rfl
  case fetch owner auth nowUnix =>
    change (home.fetch crypto owner auth nowUnix).2.ownerNonces = _
    unfold HomeServer.fetch OwnerCall.run
    dsimp only
    split
    · rename_i heq
      rw [heq]
    · rename_i checked heq
      rw [heq]
      split
      · rfl
      · split <;> exact ownerNonces_gcMailbox checked owner
  case ack owner auth nowUnix =>
    change (home.ack crypto owner auth nowUnix).2.ownerNonces = _
    unfold HomeServer.ack OwnerCall.run
    dsimp only
    split
    · rename_i heq
      rw [heq]
    · rename_i heq
      rw [heq]
      split
      · rfl
      · unfold HomeServer.ackRows
        dsimp only
        split <;> rfl
  case enqueueFromOwner owner auth nowUnix outer =>
    change (home.enqueueFromOwner crypto owner auth nowUnix outer).2.ownerNonces = _
    unfold HomeServer.enqueueFromOwner OwnerCall.run
    dsimp only
    split
    · rename_i heq
      rw [heq]
    · rename_i checked heq
      rw [heq]
      split
      · rfl
      · exact (manages_ownerNonces crypto .none).enqueue checked outer

theorem ownerNonces_persist (node : Node) (fault : Bool) :
    (node.persist fault).2.home.ownerNonces = node.home.ownerNonces := by
  rcases node.persist_issues fault with ⟨-, -, h, -⟩ | ⟨-, h, -⟩ | ⟨_, -, -, h, -⟩ <;> rw [h]

end Operation

/-! ## Runs -/

section Run

variable {crypto : Crypto} {node : Node} {ops : List NodeOp}

theorem ownerCalls_cons (crypto : Crypto) (node : Node) (op : NodeOp) (ops : List NodeOp) :
    ownerCalls crypto node (op :: ops) =
      op.ownerCall crypto node ++ ownerCalls crypto (op.apply crypto node) ops := rfl

theorem acceptedCalls_cons (crypto : Crypto) (node : Node) (op : NodeOp) (ops : List NodeOp) :
    acceptedCalls crypto node (op :: ops) =
      ((op.ownerCall crypto node).filter (·.2)).map (·.1) ++
        acceptedCalls crypto (op.apply crypto node) ops := by
  rw [acceptedCalls, ownerCalls_cons, List.filter_append, List.map_append]
  rfl

/-- An operation but a restart makes no call and leaves the nonces alone, or it makes one and changes
them as the call does. -/
theorem NodeOp.ownerCall_cases (crypto : Crypto) (node : Node) {op : NodeOp} (hop : op ≠ .reload) :
    (op.ownerCall crypto node = [] ∧
      (op.apply crypto node).home.ownerNonces = node.home.ownerNonces) ∨
    ∃ call : OwnerCall, op.ownerCall crypto node = [(call, call.accepted crypto node.home)] ∧
      (op.apply crypto node).home.ownerNonces = (call.run crypto node.home).2.ownerNonces := by
  cases op with
  | home op =>
    cases hcall : op.ownerCall crypto node.home with
    | none => exact .inl ⟨by rw [NodeOp.ownerCall, hcall]; rfl, HomeOp.ownerNonces_of_none hcall⟩
    | some call =>
      exact .inr ⟨call, by rw [NodeOp.ownerCall, hcall]; rfl, HomeOp.ownerNonces_of_some hcall⟩
  | group => exact .inl ⟨rfl, rfl⟩
  | persist fault => exact .inl ⟨rfl, ownerNonces_persist node fault⟩
  | reload => exact absurd rfl hop

/-- Whatever was admitted before the run is not accepted in it, and what it accepts has different
stamps. -/
theorem acceptedCalls_fresh (hrestart : ∀ op ∈ ops, op ≠ .reload) {clock : ℕ}
    {admitted : List (Key × ℕ)}
    (hrecalls : ReplayGuard.Recalls MailboxOwnerAuth.maxAgeSecs node.home.ownerNonces clock admitted)
    (hclock : ∀ call ∈ ownerCalls crypto node ops, clock ≤ call.1.nowUnix)
    (hsorted : (ownerCalls crypto node ops).Pairwise fun before after ↦
      before.1.nowUnix ≤ after.1.nowUnix) :
    (∀ call ∈ acceptedCalls crypto node ops, call.stamp ∉ admitted) ∧
      (acceptedCalls crypto node ops).Pairwise fun before after ↦ before.stamp ≠ after.stamp := by
  induction ops generalizing node clock admitted with
  | nil => exact ⟨nofun, List.Pairwise.nil⟩
  | cons op ops ih =>
    have hrest : ∀ op ∈ ops, op ≠ .reload := fun op hop ↦ hrestart op (List.mem_cons_of_mem _ hop)
    rw [ownerCalls_cons] at hclock hsorted
    rcases NodeOp.ownerCall_cases crypto node (hrestart op List.mem_cons_self) with
      ⟨hnone, hsame⟩ | ⟨call, hcall, hnonces⟩
    · rw [hnone, List.nil_append] at hclock hsorted
      rw [acceptedCalls_cons, hnone]
      exact ih hrest (hsame ▸ hrecalls) hclock hsorted
    · rw [hcall, List.singleton_append] at hclock hsorted
      obtain ⟨hlater, hsorted⟩ := List.pairwise_cons.mp hsorted
      have hnow : clock ≤ call.nowUnix := hclock _ List.mem_cons_self
      rw [acceptedCalls_cons, hcall]
      rcases call.run_cases crypto node.home with
        ⟨hrejected, hafter⟩ | ⟨haccepted, hold, -, -, hunknown, hafter⟩
      · rw [hrejected]
        refine ih hrest ?_ hlater hsorted
        rw [hnonces]
        rcases hafter with hsame | hpruned
        · rw [hsame]
          exact hrecalls.later hnow
        · rw [hpruned]
          exact hrecalls.prune hnow
      · have hpruned := hrecalls.prune hnow
        rw [haccepted]
        obtain ⟨hnotin, hpairwise⟩ := ih hrest (hnonces ▸ hafter ▸ hpruned.admit hunknown _) hlater
          hsorted
        have hhead : call.stamp ∉ admitted := hpruned.not_mem hunknown hold
        refine ⟨fun later hmem ↦ ?_, List.pairwise_cons.mpr ⟨fun later hmem heq ↦ ?_, hpairwise⟩⟩
        · rcases List.mem_cons.mp hmem with rfl | hmem
          · exact hhead
          · exact fun h ↦ hnotin later hmem (List.mem_append_left _ h)
        · exact hnotin later hmem (heq ▸ List.mem_append_right _ (List.mem_singleton_self _))

theorem exists_accepted {call : OwnerCall} (h : call ∈ acceptedCalls crypto node ops) :
    ∃ home, call.accepted crypto home = true := by
  induction ops generalizing node with
  | nil => cases h
  | cons op ops ih =>
    rw [acceptedCalls_cons] at h
    rcases List.mem_append.mp h with hfirst | hrest
    · cases op with
      | home op =>
        rw [NodeOp.ownerCall] at hfirst
        cases hcall : op.ownerCall crypto node.home with
        | none =>
          rw [hcall] at hfirst
          cases hfirst
        | some made =>
          rw [hcall] at hfirst
          cases haccepted : made.accepted crypto node.home with
          | false => simp [haccepted] at hfirst
          | true =>
            obtain rfl : call = made := by simpa [haccepted] using hfirst
            exact ⟨node.home, haccepted⟩
      | group | persist | reload => cases hfirst
    · exact ih hrest

/-- Between two restarts no owner signature is accepted twice. Each is accepted within its window and
for its scope, and a rejected call records no nonce. -/
theorem owner_calls_accepted_once (crypto : Crypto) (node : Node) (ops : List NodeOp)
    (hrestart : ∀ op ∈ ops, op ≠ .reload)
    (hsorted : (ownerCalls crypto node ops).Pairwise fun before after ↦
      before.1.nowUnix ≤ after.1.nowUnix) :
    ((acceptedCalls crypto node ops).Pairwise fun before after ↦
      before.auth.unsignedPairs ≠ after.auth.unsignedPairs) ∧
    (∀ call ∈ acceptedCalls crypto node ops,
      call.nowUnix ≤ call.auth.ts.toNat + MailboxOwnerAuth.maxAgeSecs ∧
      call.auth.ts.toNat ≤ call.nowUnix + MailboxOwnerAuth.maxAgeSecs ∧
      call.auth.scope = call.expect) ∧
    ∀ (home : HomeServer) (call : OwnerCall), call.accepted crypto home = false →
      ∀ nonce ts, (call.run crypto home).2.ownerNonces.lookup nonce = some ts →
        home.ownerNonces.lookup nonce = some ts := by
  have hrecalls : ReplayGuard.Recalls MailboxOwnerAuth.maxAgeSecs node.home.ownerNonces 0 [] := nofun
  refine ⟨?_, fun call hcall ↦ ?_, fun home call hrejected nonce ts ↦
    OwnerCall.lookup_of_rejected hrejected⟩
  · refine (acceptedCalls_fresh hrestart hrecalls (fun _ _ ↦ Nat.zero_le _) hsorted).2.imp ?_
    intro before after hstamp hpairs
    apply hstamp
    simp only [MailboxOwnerAuth.unsignedPairs, List.cons.injEq, Prod.mk.injEq, Cbor.Value.uint.injEq,
      Cbor.Value.bytes.injEq, true_and, and_true] at hpairs
    obtain ⟨-, -, -, hts, -, -, -, -, hnonce⟩ := hpairs
    exact Prod.ext (FixedBytes.ext_data hnonce) (congrArg UInt64.toNat hts)
  · obtain ⟨home, haccepted⟩ := exists_accepted hcall
    rcases call.run_cases crypto home with ⟨hrejected, -⟩ | ⟨-, hold, hahead, hscope, -⟩
    · rw [hrejected] at haccepted
      cases haccepted
    · exact ⟨by omega, hahead, hscope⟩

set_option maxRecDepth 100000 in
/-- A request of an owner is made twice. -/
theorem owner_calls_accepted_once_of_replay :
    let crypto := Crypto.transparent
    let key : Key := .replicate 32 1
    let home := (HomeOp.register key key).apply crypto (.withLimits crypto ⟨key, key⟩ key .default)
    let auth : MailboxOwnerAuth :=
      { mailboxHint := key.data
        cursor := 0
        limit := 1
        ts := 1700000060
        scope := .body key "POST" "/v1/mailbox/fetch"
        nonce := key
        signature := .replicate 64 0 }
    let request := NodeOp.home (.fetch key auth 1700000000)
    let node : Node := ⟨home, .new, .empty⟩
    (ownerCalls crypto node [request, request]).map (·.2) = [true, false] ∧
      ∀ call ∈ acceptedCalls crypto node [request, request], call.auth.scope = call.expect := by
  intro crypto key home auth request node
  refine ⟨by decide +kernel, ?_⟩
  have haccepted := owner_calls_accepted_once crypto node [request, request] (by simp [request])
    (.cons (by simp [ownerCalls, NodeOp.ownerCall, HomeOp.ownerCall, request]) (.cons nofun .nil))
  exact fun call hcall ↦ (haccepted.2.1 call hcall).2.2

end Run

end NemoMessenger.Server
