import NemoMessenger.Client.Inside

/-!
# Calm programs

Most of what a client does neither changes a contact nor seals a message. The actions of such a
program are calm, whatever the answers are.
-/

namespace NemoMessenger.Client

open NemoMessenger.Data NemoMessenger.Wire
open Program (Only)

/-- The operation leaves the contacts alone and seals nothing. -/
def Op.Calm : (β : Type) → Op β → Prop
  | _, session (.contact ..) | _, session (.forget ..) | _, ratchet (.encrypt ..)
  | _, group _ (.encrypt ..) => False
  | _, _ => True

/-- The program performs calm operations only. -/
abbrev Calm {α : Type} (q : SessionM α) : Prop := Only Op.Calm q

variable {p : Outside}

/-! ## Single actions -/

@[grind ←] theorem calm_memory : Calm memory := .act trivial

@[grind ←] theorem calm_session : Calm session := by grind [session]

@[grind ←] theorem calm_onInstall {β : Type} (op : InstallOp β) : Calm (onInstall op) := by
  refine .bind (.act trivial) fun answer ↦ ?_
  cases answer
  exacts [.fail _, .pure _]

@[grind ←] theorem calm_nowMs : Calm nowMs := .act trivial

@[grind ←] theorem calm_nowUnix : Calm nowUnix := by grind [nowUnix]

@[grind ←] theorem calm_drawKey : Calm drawKey := .bind (.act trivial) fun _ ↦ .pure _

@[grind ←] theorem calm_send (origin : String) (request : Request) : Calm (send origin request) :=
  .bind (.act trivial) fun _ ↦ .ofExcept _

@[grind ←] theorem calm_sendHome (request : Request) : Calm (sendHome request) :=
  .bind calm_session fun _ ↦ calm_send _ _

/-! ## Cards and prekeys -/

@[grind ←] theorem calm_mintCard (bundle : ServerBundle) (now : UInt64) :
    Calm (mintCard p bundle now) := by
  grind [mintCard]

@[grind ←] theorem calm_publishPrekey : Calm publishPrekey := by grind [publishPrekey]

@[grind ←] theorem calm_maybeRotateSignedPrekey (now : UInt64) :
    Calm (maybeRotateSignedPrekey now) := by
  grind [maybeRotateSignedPrekey]

@[grind ←] theorem calm_restockLoop (target turns : ℕ) : Calm (restockLoop target turns) := by
  induction turns with
  | zero => grind [restockLoop]
  | succ turns ih => grind [restockLoop]

@[grind ←] theorem calm_restockPublishUpto (target : ℕ) : Calm (restockPublishUpto target) := by
  grind [restockPublishUpto]

@[grind ←] theorem calm_moveFanouts (old : String) : Calm (moveFanouts old) := by
  refine .bind calm_session fun moved ↦ .forEach fun g ↦
    .bind (.attempt (calm_sendHome _)) fun answer ↦ ?_
  cases answer <;> grind

/-! ## Contacts and origins -/

@[grind ←] theorem calm_callOn (origin : String) (request : Request) :
    Calm (callOn p origin request) := by
  refine .bind calm_session fun s ↦ ?_
  dsimp only
  split_ifs
  · exact calm_send _ _
  · split
    exacts [calm_send _ _, .fail _]

@[grind ←] theorem calm_processPrekeyBundle (peer : IdentityId) (bundle : Bytes) :
    Calm (ratchet (.processPrekeyBundle peer bundle)) := by
  refine .bind (.act trivial) fun answer ↦ ?_
  cases answer
  exacts [.fail _, .pure _]

@[grind ←] theorem calm_startSession (card : ContactCard) (prekey : SignedPrekey) (now : UInt64) :
    Calm (startSession p card prekey now) := by
  grind [startSession]

/-! ## What a calm program leaves alone -/

variable {env : Environment} {place : Option Place}

theorem place_mapInstall (inner : Inner) (f : Installation → Installation) :
    ((inner.mapInstall f).session?.map (·.place)) = inner.session?.map (·.place) := by
  rw [Inner.session?_mapInstall, Option.map_map]
  rfl

theorem place_mapSession (inner : Inner) {f : HomeSession → HomeSession}
    (hf : ∀ s, (f s).place = s.place) :
    ((inner.mapSession f).session?.map (·.place)) = inner.session?.map (·.place) := by
  rw [Inner.session?_mapSession, Option.map_map]
  exact congrArg (Option.map · _) (funext hf)

/-- A calm operation moves no contact. -/
theorem Op.place_effect {β : Type} {o : Op β} (h : o.Calm) (w : World) :
    (o.effect p env w).2.place = w.place := by
  cases o with
  | session update =>
    cases update with
    | contact id c => exact h.elim
    | forget id => exact h.elim
    | _ => exact place_mapSession _ fun _ ↦ rfl
  | ratchet op =>
    simp only [Op.effect]
    split
    · rfl
    · exact place_mapInstall _ _
  | install op =>
    simp only [Op.effect]
    split
    · rfl
    · exact place_mapInstall _ _
  | group i op =>
    simp only [Op.effect]
    split
    · rfl
    · exact place_mapInstall _ _
  | nickname groupId name =>
    simp only [Op.effect, World.place, Inner.setNickname]
    split <;> rfl
  | enroll host g name =>
    simp only [Op.effect, World.place, Inner.enroll]
    split
    · rfl
    · exact (place_mapInstall _ _).trans (place_mapSession _ fun _ ↦ rfl)
  | _ => rfl

theorem keeps_place {α : Type} {q : SessionM α} (h : Calm q) :
    Program.Keeps (inside p env) (fun w ↦ w.place = place) q :=
  h.keeps fun o w ho hw ↦ (o.place_effect ho w).trans hw

theorem keeps_place_device {α : Type} {q : SessionM α} (h : Calm q) :
    Program.Keeps (device p env) (fun w ↦ w.place = place) (q : ClientM α) :=
  fun s t hs ht ↦ keeps_place h s t hs (Program.visits_hoist.mp ht)

end NemoMessenger.Client
