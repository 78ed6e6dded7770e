import NemoMessenger.Client.Echo
import NemoMessenger.Client.Run
import NemoMessenger.Client.Untouched

/-!
# Acks

`fetch_now` acks the rows it has read and saves what it took from them later, at its very end. When
the ack leaves, the vault is still the one of before the call: it has what the rows did to the memory
only where there was nothing to save.
-/

namespace NemoMessenger.Client

open NemoMessenger.Data NemoMessenger.Wire
open Program (Keeps Performs run performs_bind)

/-! ## What the rows did -/

/-- A home state but for the cursor. -/
def HomeState.uncursored (state : HomeState) : HomeState := { state with cursor := 0 }

/-- An entry but for the cursor. -/
def Entry.uncursored : Entry → Entry
  | .home state => .home state.uncursored
  | entry => entry

namespace Vault

/-- A vault but for the cursor. -/
def uncursored (vault : Vault) : Vault :=
  { vault with home := vault.home.map HomeState.uncursored }

/-- The vault has what an entry would bring, but for the cursor. -/
def Has (vault : Vault) (storage : MlsStorage) (entry : Entry) : Prop :=
  vault.uncursored.Holds storage entry.uncursored

/-- An entry that is to be saved of the later of two memories, and that a save of the earlier one
would not have. -/
def Effect (vault : Vault) (before after : Inner) (entry : Entry) : Prop :=
  entry ∈ after.writes ∧ ¬(vault.putAll before.writes).Has after.storage entry

end Vault

/-! ## Memories a save does not tell apart -/

section

variable {p : Outside} {env : Environment} {cursor : UInt64}

end

/-! ## Rows nobody takes -/

/-- Every message is too late for its group, and no session opens any. -/
def Outside.refusing : Outside :=
  { Outside.belated with
    libsignal := { Outside.belated.libsignal with
      decrypt := fun store peer _ _ ↦
        (.error "session not found", store.peer peer, store.preKeyStores) } }

/-- A commit of an epoch that is over, a message of a peer, and a RemoveBundle that is put off. -/
def MailboxRow.refused : List MailboxRow :=
  [MailboxRow.ofNobody .mlsHandshake,
   ⟨2, .blank (.replicate 32 0) (.replicate 32 0)⟩,
   { MailboxRow.ofNobody .removeBundle with seq := 3 }]

/-- A home that has these rows in the mailbox and answers nothing else. -/
def Environment.refused : Environment :=
  { Environment.silent with
    answer := fun _ _ request ↦ match request with
      | .fetchMailbox _ => .ok MailboxRow.refused
      | _ => .error (.transport "no answer") }

/-- A registered client with one peer, just opened on its vault. -/
def World.waiting : World where
  inner := Vault.beforeFetch.load.inner.mapInstall fun install ↦
    { install with
      store := { install.store with sessions := AList.insert (.replicate 32 1) [0] ∅ } }
  taken := false
  vault := Vault.beforeFetch
  log := []
  bonds := []
  tick := 0

/-- A home that has one row in the mailbox and answers nothing else. -/
def Environment.oneRow : Environment :=
  { Environment.silent with
    answer := fun _ _ request ↦ match request with
      | .fetchMailbox _ => .ok [⟨1, .blank (.replicate 32 0) (.replicate 32 0)⟩]
      | _ => .error (.transport "no answer") }

/-- What `receive` has when that row is read, and the world then. -/
def World.received : Except CoreError Received × World :=
  run (device .transparent .oneRow) (receive .transparent : ClientM Received) .waiting

/-- A vault that has a conversation has its rows. -/
theorem Vault.Has.rows {vault : Vault} {storage : MlsStorage} {entry : InboxEntry}
    (h : vault.Has storage (.inbox entry)) : vault.load.inbox.rows = entry.rows :=
  congrArg Prod.fst h

end NemoMessenger.Client
