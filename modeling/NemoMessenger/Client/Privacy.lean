import NemoMessenger.Client.State
import NemoMessenger.Data.Run
import Mathlib.Data.List.Induction

/-!
# The privacy transport

Sealed envelopes are handed to a sink at once, or, in the modes that blur their times, held for a
random while and handed over by the `advance` after it. A sink that fails ends the `advance`, and
everything that was still held is gone with it.
-/

namespace NemoMessenger.Client

open NemoMessenger.Data NemoMessenger.Wire

/-- `PRIVATE_EXTRA_MIN_MS`, `PRIVATE_EXTRA_MAX_MS` and `PRIVATE_BATCH_MAX_MS`. -/
def privateExtraMinMs : ℕ := 20

def privateExtraMaxMs : ℕ := 200

def privateBatchMaxMs : ℕ := 5000

/-- `Hop`. -/
inductive Hop
  | direct
  | tor
  deriving DecidableEq

/-- `hop_for`. -/
def hopFor : PrivacyMode → Hop
  | .normal | .private_ => .direct
  | .high | .maximum => .tor

/-- `uniform`, of a drawn number. -/
def uniformMs (min max : ℕ) (drawn : UInt64) : ℕ :=
  if max ≤ min then min else min + drawn.toNat % (max - min + 1)

theorem uniformMs_bounds {min max : ℕ} (h : min ≤ max) (drawn : UInt64) :
    min ≤ uniformMs min max drawn ∧ uniformMs min max drawn ≤ max := by
  unfold uniformMs
  split_ifs with hle
  · exact ⟨le_rfl, h⟩
  · have hlt : drawn.toNat % (max - min + 1) < max - min + 1 := Nat.mod_lt _ (Nat.succ_pos _)
    omega

/-- `EnvelopeSink`. -/
structure EnvelopeSink (S : Type) where
  emit : Hop → Bytes → S → Except CoreError Unit × S

/-- `Pending`. -/
structure HeldOuter where
  bytes : Bytes
  readyAtMs : ℕ
  deriving DecidableEq

/-- `PrivacyTransport`. -/
structure PrivacyTransport (S : Type) where
  mode : PrivacyMode
  hop : Hop
  nowMs : ℕ
  pending : List HeldOuter
  sink : S

namespace PrivacyTransport

variable {S : Type} (sink : EnvelopeSink S)

/-- `new`. -/
def new (mode : PrivacyMode) (s : S) : PrivacyTransport S where
  mode := mode
  hop := hopFor mode
  nowMs := 0
  pending := []
  sink := s

/-- `delay_ms`, of two drawn numbers. -/
def delayMs (mode : PrivacyMode) (drawn drawn' : UInt64) : ℕ :=
  match mode with
  | .normal | .maximum => 0
  | .private_ | .high =>
    uniformMs privateExtraMinMs privateExtraMaxMs drawn + uniformMs 0 privateBatchMaxMs drawn'

/-- `send`. The delay is drawn for the envelope, and drawn again for the choice of the branch. -/
def send (outer : OuterEnvelope) (draws : ℕ → UInt64) (t : PrivacyTransport S) :
    Except CoreError Unit × PrivacyTransport S :=
  let readyAtMs := saturatingAdd t.nowMs (delayMs t.mode (draws 0) (draws 1))
  if delayMs t.mode (draws 2) (draws 3) = 0 then
    let (result, s) := sink.emit t.hop outer.encode t.sink
    (result, { t with sink := s })
  else (.ok (), { t with pending := t.pending ++ [⟨outer.encode, readyAtMs⟩] })

/-- The loop of `flush_ready`: `rest` is what it has passed over, `n` how many it has handed on. -/
def flushLoop (hop : Hop) (now : ℕ) :
    List HeldOuter → List HeldOuter → ℕ → S → Except CoreError (ℕ × List HeldOuter) × S
  | [], rest, n, s => (.ok (n, rest), s)
  | held :: pending, rest, n, s =>
    if held.readyAtMs ≤ now then
      match sink.emit hop held.bytes s with
      | (.error e, s) => (.error e, s)
      | (.ok (), s) => flushLoop hop now pending rest (n + 1) s
    else flushLoop hop now pending (rest ++ [held]) n s

/-- `flush_ready`. The list is drained before the loop, and put back only by a loop that ends. -/
def flushReady (t : PrivacyTransport S) : Except CoreError ℕ × PrivacyTransport S :=
  match flushLoop sink t.hop t.nowMs t.pending [] 0 t.sink with
  | (.error e, s) => (.error e, { t with pending := [], sink := s })
  | (.ok (n, rest), s) => (.ok n, { t with pending := rest, sink := s })

/-- `advance`. -/
def advance (nowMs : UInt64) (t : PrivacyTransport S) : Except CoreError ℕ × PrivacyTransport S :=
  flushReady sink { t with nowMs := nowMs.toNat }

end PrivacyTransport

/-! ## Runs -/

/-- The calls on a transport; `send_cover` is `send`. -/
inductive TransportCall
  | send (outer : OuterEnvelope) (draws : ℕ → UInt64)
  | advance (nowMs : UInt64)

/-- The transport a call leaves, whether or not it succeeds. -/
def TransportCall.apply {S : Type} (sink : EnvelopeSink S) (t : PrivacyTransport S) :
    TransportCall → PrivacyTransport S
  | send outer draws => (t.send sink outer draws).2
  | advance nowMs => (t.advance sink nowMs).2

/-- The envelope a call hands to the transport. -/
def TransportCall.bytes? : TransportCall → Option Bytes
  | send outer _ => some outer.encode
  | advance _ => none

/-- What a sink was handed. -/
structure Emission where
  hop : Hop
  bytes : Bytes
  ok : Bool

/-- The sink, with a record of what it is handed. -/
def EnvelopeSink.recording {S : Type} (sink : EnvelopeSink S) : EnvelopeSink (S × List Emission) where
  emit hop bytes s :=
    let (result, s') := sink.emit hop bytes s.1
    (result, s', s.2 ++ [⟨hop, bytes, result.isOk⟩])

/-- A held envelope handed to the sink. -/
def HeldOuter.emission (hop : Hop) (ok : Bool) (held : HeldOuter) : Emission := ⟨hop, held.bytes, ok⟩

/-- The held envelopes that are due, and those that are not. -/
def dueOuters (now : ℕ) (pending : List HeldOuter) : List HeldOuter :=
  pending.filter fun held ↦ held.readyAtMs ≤ now

def earlyOuters (now : ℕ) (pending : List HeldOuter) : List HeldOuter :=
  pending.filter fun held ↦ ¬held.readyAtMs ≤ now

section Flush

variable {S : Type} (sink : EnvelopeSink S)

theorem emit_recording {hop : Hop} {bytes : Bytes} {s : S × List Emission}
    {result : Except CoreError Unit} {s' : S} (h : sink.emit hop bytes s.1 = (result, s')) :
    sink.recording.emit hop bytes s = (result, s', s.2 ++ [⟨hop, bytes, result.isOk⟩]) := by
  change ((sink.emit hop bytes s.1).1, (sink.emit hop bytes s.1).2,
    s.2 ++ [⟨hop, bytes, (sink.emit hop bytes s.1).1.isOk⟩]) = _
  rw [h]

/-- The loop hands on what is due, in its order, up to the first failure of the sink. -/
theorem flushLoop_recording (hop : Hop) (now : ℕ) (pending rest : List HeldOuter) (n : ℕ)
    (s : S × List Emission) :
    (∃ s', PrivacyTransport.flushLoop sink.recording hop now pending rest n s =
        (.ok (n + (dueOuters now pending).length, rest ++ earlyOuters now pending),
          (s', s.2 ++ (dueOuters now pending).map (·.emission hop true)))) ∨
      ∃ e s' done failed later, dueOuters now pending = done ++ failed :: later ∧
        PrivacyTransport.flushLoop sink.recording hop now pending rest n s =
          (.error e, (s', s.2 ++ (done.map (·.emission hop true) ++ [failed.emission hop false]))) := by
  induction pending generalizing rest n s with
  | nil => exact .inl ⟨s.1, by simp [PrivacyTransport.flushLoop, dueOuters, earlyOuters]⟩
  | cons held pending ih =>
    unfold PrivacyTransport.flushLoop
    by_cases hdue : held.readyAtMs ≤ now
    · have hcons : dueOuters now (held :: pending) = held :: dueOuters now pending :=
        List.filter_cons_of_pos (by simpa using hdue)
      have hearly : earlyOuters now (held :: pending) = earlyOuters now pending :=
        List.filter_cons_of_neg (by simpa using hdue)
      rw [if_pos hdue, hcons, hearly]
      obtain ⟨result, s', hemit⟩ : ∃ result s', sink.emit hop held.bytes s.1 = (result, s') :=
        ⟨_, _, rfl⟩
      rw [emit_recording sink hemit]
      cases result with
      | error e => exact .inr ⟨e, s', [], held, dueOuters now pending, rfl, rfl⟩
      | ok u =>
        rcases ih rest (n + 1) (s', s.2 ++ [held.emission hop true]) with
          ⟨s'', heq⟩ | ⟨e, s'', done, failed, later, hsplit, heq⟩
        · refine .inl ⟨s'', ?_⟩
          refine heq.trans ?_
          rw [List.length_cons, List.map_cons, List.append_assoc, List.singleton_append,
            Nat.add_right_comm, Nat.add_assoc]
        · refine .inr ⟨e, s'', held :: done, failed, later, by rw [hsplit, List.cons_append], ?_⟩
          refine heq.trans ?_
          rw [List.map_cons, List.append_assoc, List.singleton_append, List.cons_append]
    · have hcons : dueOuters now (held :: pending) = dueOuters now pending :=
        List.filter_cons_of_neg (by simpa using hdue)
      have hearly : earlyOuters now (held :: pending) = held :: earlyOuters now pending :=
        List.filter_cons_of_pos (by simpa using hdue)
      rw [if_neg hdue, hcons, hearly]
      rcases ih (rest ++ [held]) n s with ⟨s', heq⟩ | hfails
      · refine .inl ⟨s', heq.trans ?_⟩
        rw [List.append_assoc, List.singleton_append]
      · exact .inr hfails

end Flush

/-! ## Nothing is sent twice, and nothing is lost without a failure -/

/-- The envelopes that were handed to the transport. -/
def sentOuters (calls : List TransportCall) : List Bytes := calls.filterMap TransportCall.bytes?

section Conserved

variable {S : Type} {sink : EnvelopeSink S}

/-- Every envelope handed to the transport has been handed to the sink once, is held, or is lost;
and none is lost as long as the sink does not fail. -/
def Conserved (t : PrivacyTransport (S × List Emission)) (sent : List Bytes) : Prop :=
  ∃ lost, (t.sink.2.map (·.bytes) ++ t.pending.map (·.bytes) ++ lost).Perm sent ∧
    (t.sink.2.all (·.ok) = true → lost = [])

theorem due_append_early_perm (now : ℕ) (pending : List HeldOuter) :
    (dueOuters now pending ++ earlyOuters now pending).Perm pending := by
  have hearly : earlyOuters now pending =
      pending.filter fun held ↦ !decide (held.readyAtMs ≤ now) := by
    refine List.filter_congr fun held _ ↦ ?_
    rw [decide_not]
  rw [hearly]
  exact List.filter_append_perm (fun held : HeldOuter ↦ decide (held.readyAtMs ≤ now)) pending

theorem map_bytes_emission (hop : Hop) (ok : Bool) (held : List HeldOuter) :
    (held.map (·.emission hop ok)).map (·.bytes) = held.map (·.bytes) := by
  rw [List.map_map]
  rfl

theorem Conserved.flush {t : PrivacyTransport (S × List Emission)} {sent : List Bytes}
    (h : Conserved t sent) : Conserved (t.flushReady sink.recording).2 sent := by
  obtain ⟨lost, hperm, hnone⟩ := h
  have hsplit := (due_append_early_perm t.nowMs t.pending).map (·.bytes)
  rw [List.map_append] at hsplit
  unfold PrivacyTransport.flushReady
  rcases flushLoop_recording sink t.hop t.nowMs t.pending [] 0 t.sink with
    ⟨s', heq⟩ | ⟨e, s', done, failed, later, hdue, heq⟩
  · rw [heq]
    refine ⟨lost, ?_, fun hok ↦ ?_⟩
    · dsimp only
      rw [List.map_append, map_bytes_emission, List.nil_append, List.append_assoc (t.sink.2.map _)]
      exact ((hsplit.append_left _).append_right lost).trans hperm
    · dsimp only at hok
      rw [List.all_append, Bool.and_eq_true] at hok
      exact hnone hok.1
  · rw [heq]
    -- The failed envelope counts as handed over; what was due behind it and what was early is lost.
    refine ⟨later.map (·.bytes) ++ (earlyOuters t.nowMs t.pending).map (·.bytes) ++ lost, ?_, ?_⟩
    · dsimp only
      have hbytes : (done.map (·.emission t.hop true) ++ [failed.emission t.hop false]).map
          (·.bytes) ++ later.map (·.bytes) = (dueOuters t.nowMs t.pending).map (·.bytes) := by
        rw [hdue, List.map_append, map_bytes_emission, List.map_append, List.map_cons,
          List.append_assoc]
        rfl
      rw [List.map_append, List.map_nil, List.append_nil]
      calc
        _ = t.sink.2.map (·.bytes) ++ ((done.map (·.emission t.hop true) ++
              [failed.emission t.hop false]).map (·.bytes) ++ later.map (·.bytes) ++
              (earlyOuters t.nowMs t.pending).map (·.bytes)) ++ lost := by
          simp only [List.append_assoc]
        _ = t.sink.2.map (·.bytes) ++ ((dueOuters t.nowMs t.pending).map (·.bytes) ++
              (earlyOuters t.nowMs t.pending).map (·.bytes)) ++ lost := by rw [hbytes]
        List.Perm _ _ := ((hsplit.append_left _).append_right lost).trans hperm
    · intro hok
      dsimp only at hok
      rw [List.all_append, List.all_append, Bool.and_eq_true, Bool.and_eq_true] at hok
      simp [HeldOuter.emission] at hok

theorem Conserved.apply {t : PrivacyTransport (S × List Emission)} {sent : List Bytes}
    (h : Conserved t sent) (call : TransportCall) :
    Conserved (call.apply sink.recording t) (sent ++ call.bytes?.toList) := by
  cases call with
  | advance nowMs =>
    rw [TransportCall.bytes?, Option.toList_none, List.append_nil]
    exact @Conserved.flush S sink { t with nowMs := nowMs.toNat } sent h
  | send outer draws =>
    obtain ⟨lost, hperm, hnone⟩ := h
    rw [TransportCall.bytes?, Option.toList_some]
    unfold TransportCall.apply PrivacyTransport.send
    dsimp only
    split_ifs
    · obtain ⟨result, s', hemit⟩ : ∃ result s',
        sink.emit t.hop outer.encode t.sink.1 = (result, s') := ⟨_, _, rfl⟩
      change Conserved { t with sink := (sink.recording.emit t.hop outer.encode t.sink).2 } _
      rw [emit_recording sink hemit]
      refine ⟨lost, ?_, fun hok ↦ ?_⟩
      · dsimp only
        rw [List.map_append, List.map_singleton]
        calc
          List.Perm _ (t.sink.2.map (·.bytes) ++ t.pending.map (·.bytes) ++ lost ++
              [outer.encode]) := by
            rw [List.append_assoc, List.append_assoc, List.append_assoc, List.append_assoc]
            refine List.Perm.append_left _ ?_
            rw [← List.append_assoc (t.pending.map _)]
            exact List.perm_append_comm
          List.Perm _ _ := hperm.append_right _
      · dsimp only at hok
        rw [List.all_append, Bool.and_eq_true] at hok
        exact hnone hok.1
    · refine ⟨lost, ?_, hnone⟩
      dsimp only
      rw [List.map_append, List.map_singleton]
      calc
        List.Perm _ (t.sink.2.map (·.bytes) ++ t.pending.map (·.bytes) ++ lost ++
            [outer.encode]) := by
          simp only [List.append_assoc]
          refine List.Perm.append_left _ (List.Perm.append_left _ List.perm_append_comm)
        List.Perm _ _ := hperm.append_right _

theorem conserved_run {t : PrivacyTransport (S × List Emission)} {sent : List Bytes}
    (h : Conserved t sent) (calls : List TransportCall) :
    Conserved (run (TransportCall.apply sink.recording) t calls) (sent ++ sentOuters calls) := by
  induction calls generalizing t sent with
  | nil =>
    rw [sentOuters, List.filterMap_nil, List.append_nil]
    exact h
  | cons call calls ih =>
    have hcalls : sent ++ sentOuters (call :: calls) =
        sent ++ call.bytes?.toList ++ sentOuters calls := by
      rw [sentOuters, List.filterMap_cons, List.append_assoc]
      cases call.bytes? <;> rfl
    rw [hcalls]
    exact ih (h.apply call)

/-- In every run the envelopes handed to the sink, those still held and those lost are together the
envelopes that were sent, each once and with its bytes; and none is lost before the sink fails. -/
theorem transport_conserves (sink : EnvelopeSink S) (mode : PrivacyMode) (s : S)
    (calls : List TransportCall) :
    let t := run (TransportCall.apply sink.recording) (.new mode (s, [])) calls
    ∃ lost, (t.sink.2.map (·.bytes) ++ t.pending.map (·.bytes) ++ lost).Perm (sentOuters calls) ∧
      (t.sink.2.all (·.ok) = true → lost = []) := by
  have hnew : Conserved (.new mode (s, [])) [] := ⟨[], .refl _, fun _ ↦ rfl⟩
  exact conserved_run hnew calls

end Conserved

/-! ## How long an envelope is held -/

/-- The longest delay. -/
def maxDelayMs : ℕ := privateExtraMaxMs + privateBatchMaxMs

/-- The delay of an envelope that is held. -/
theorem delayMs_bounds {mode : PrivacyMode} (draws : ℕ → UInt64)
    (h : PrivacyTransport.delayMs mode (draws 2) (draws 3) ≠ 0) :
    privateExtraMinMs ≤ PrivacyTransport.delayMs mode (draws 0) (draws 1) ∧
      PrivacyTransport.delayMs mode (draws 0) (draws 1) ≤ maxDelayMs := by
  have hextra := @uniformMs_bounds privateExtraMinMs privateExtraMaxMs (by decide) (draws 0)
  have hbatch := @uniformMs_bounds 0 privateBatchMaxMs (by decide) (draws 1)
  cases mode with
  | normal | maximum => exact absurd rfl h
  | private_ | high =>
    exact ⟨hextra.1.trans (Nat.le_add_right _ _), Nat.add_le_add hextra.2 hbatch.2⟩

theorem saturatingAdd_le_saturatingAdd (a : ℕ) {b c : ℕ} (h : b ≤ c) :
    saturatingAdd a b ≤ saturatingAdd a c :=
  min_le_min_right _ (Nat.add_le_add_left h a)

section Delay

variable {S : Type} {sink : EnvelopeSink S} {start : PrivacyTransport S}

/-- The bytes were sent by one of the calls, when the clock of the transport stood at `clock`. -/
def SentAt (sink : EnvelopeSink S) (start : PrivacyTransport S) (calls : List TransportCall)
    (bytes : Bytes) (clock : ℕ) : Prop :=
  ∃ before outer draws later, calls = before ++ .send outer draws :: later ∧ bytes = outer.encode ∧
    clock = (run (TransportCall.apply sink) start before).nowMs

theorem SentAt.append {calls : List TransportCall} {bytes : Bytes} {clock : ℕ}
    (h : SentAt sink start calls bytes clock) (more : List TransportCall) :
    SentAt sink start (calls ++ more) bytes clock := by
  obtain ⟨before, outer, draws, later, rfl, hrest⟩ := h
  exact ⟨before, outer, draws, later ++ more, by rw [List.append_assoc, List.cons_append], hrest⟩

theorem mem_rest_flushLoop {hop : Hop} {now : ℕ} {pending rest rest' : List HeldOuter} {n n' : ℕ}
    {s s' : S}
    (hok : PrivacyTransport.flushLoop sink hop now pending rest n s = (.ok (n', rest'), s'))
    {held : HeldOuter} (hheld : held ∈ rest') : held ∈ rest ∨ held ∈ pending := by
  induction pending generalizing rest n s with
  | nil =>
    cases hok
    exact .inl hheld
  | cons first pending ih =>
    unfold PrivacyTransport.flushLoop at hok
    split_ifs at hok
    · split at hok
      · cases hok
      · exact (ih hok).imp_right (List.mem_cons_of_mem first)
    · rcases ih hok with hrest | hpending
      · rcases List.mem_append.mp hrest with hrest | hfirst
        · exact .inl hrest
        · exact .inr (List.mem_singleton.mp hfirst ▸ List.mem_cons_self)
      · exact .inr (List.mem_cons_of_mem first hpending)

/-- A call holds only what was held, and the envelope it sends. -/
theorem mem_pending_apply {t : PrivacyTransport S} {call : TransportCall} {held : HeldOuter}
    (h : held ∈ (call.apply sink t).pending) : held ∈ t.pending ∨
      ∃ outer draws, call = .send outer draws ∧ held.bytes = outer.encode ∧
        saturatingAdd t.nowMs privateExtraMinMs ≤ held.readyAtMs ∧
        held.readyAtMs ≤ saturatingAdd t.nowMs maxDelayMs := by
  cases call with
  | advance nowMs =>
    unfold TransportCall.apply PrivacyTransport.advance PrivacyTransport.flushReady at h
    dsimp only at h
    split at h
    · cases h
    · rename_i heq
      exact .inl ((mem_rest_flushLoop heq h).resolve_left List.not_mem_nil)
  | send outer draws =>
    unfold TransportCall.apply PrivacyTransport.send at h
    dsimp only at h
    split_ifs at h with hdelay
    · exact .inl h
    · rcases List.mem_append.mp h with hold | hnew
      · exact .inl hold
      · obtain rfl := List.mem_singleton.mp hnew
        obtain ⟨hleast, hmost⟩ := delayMs_bounds draws hdelay
        exact .inr ⟨outer, draws, rfl, rfl, saturatingAdd_le_saturatingAdd _ hleast,
          saturatingAdd_le_saturatingAdd _ hmost⟩

/-- What a run holds was sent in it, and is held for at least the least and at most the longest
delay. -/
theorem sentAt_of_pending (calls : List TransportCall) {held : HeldOuter}
    (hstart : start.pending = [])
    (h : held ∈ (run (TransportCall.apply sink) start calls).pending) :
    ∃ clock, SentAt sink start calls held.bytes clock ∧
      saturatingAdd clock privateExtraMinMs ≤ held.readyAtMs ∧
      held.readyAtMs ≤ saturatingAdd clock maxDelayMs := by
  induction calls using List.reverseRecOn with
  | nil =>
    change held ∈ start.pending at h
    rw [hstart] at h
    cases h
  | append_singleton calls call ih =>
    rw [run_append] at h
    rcases mem_pending_apply h with hold | ⟨outer, draws, rfl, hbytes, hleast, hmost⟩
    · obtain ⟨clock, hsent, hbounds⟩ := ih hold
      exact ⟨clock, hsent.append _, hbounds⟩
    · exact ⟨_, ⟨calls, outer, draws, [], rfl, hbytes, rfl⟩, hleast, hmost⟩

end Delay

/-- What an `advance` hands to the sink was sent at least 20 ms before, by the clock of the
transport, and after one that succeeds nothing is held that was sent 5200 ms before. -/
theorem delay_bounds {S : Type} (sink : EnvelopeSink S) (mode : PrivacyMode) (s : S)
    (calls : List TransportCall) (nowMs : UInt64) :
    let t := run (TransportCall.apply sink.recording) (.new mode (s, [])) calls
    let after := t.advance sink.recording nowMs
    (∃ emitted, after.2.sink.2 = t.sink.2 ++ emitted ∧ ∀ e ∈ emitted, ∃ clock,
        SentAt sink.recording (.new mode (s, [])) calls e.bytes clock ∧
          saturatingAdd clock privateExtraMinMs ≤ nowMs.toNat) ∧
      ∀ n, after.1 = .ok n → ∀ held ∈ after.2.pending, ∃ clock,
        SentAt sink.recording (.new mode (s, [])) calls held.bytes clock ∧
          nowMs.toNat < saturatingAdd clock maxDelayMs := by
  intro t after
  have hsent (held : HeldOuter) (hheld : held ∈ t.pending) := sentAt_of_pending calls rfl hheld
  have hdue (held : HeldOuter) (hheld : held ∈ dueOuters nowMs.toNat t.pending) : ∃ clock,
      SentAt sink.recording (.new mode (s, [])) calls held.bytes clock ∧
        saturatingAdd clock privateExtraMinMs ≤ nowMs.toNat := by
    obtain ⟨hmem, hready⟩ := List.mem_filter.mp hheld
    obtain ⟨clock, hat, hleast, -⟩ := hsent held hmem
    exact ⟨clock, hat, hleast.trans (of_decide_eq_true hready)⟩
  have hadvance : after = PrivacyTransport.flushReady sink.recording
    { t with nowMs := nowMs.toNat } := rfl
  clear_value after
  subst hadvance
  unfold PrivacyTransport.flushReady
  dsimp only
  rcases flushLoop_recording sink t.hop nowMs.toNat t.pending [] 0 t.sink with
    ⟨s', heq⟩ | ⟨e, s', done, failed, later, hsplit, heq⟩
  · rw [heq]
    refine ⟨⟨_, rfl, fun e he ↦ ?_⟩, fun n _ held hheld ↦ ?_⟩
    · obtain ⟨held, hheld, rfl⟩ := List.mem_map.mp he
      exact hdue held hheld
    · obtain ⟨hmem, hearly⟩ := List.mem_filter.mp hheld
      obtain ⟨clock, hat, -, hmost⟩ := hsent held hmem
      exact ⟨clock, hat, (Nat.not_le.mp (of_decide_eq_true hearly)).trans_le hmost⟩
  · rw [heq]
    refine ⟨⟨_, rfl, fun e he ↦ ?_⟩, nofun⟩
    have hin (held : HeldOuter) (hheld : held ∈ done ∨ held = failed) :
        held ∈ dueOuters nowMs.toNat t.pending := by
      rw [hsplit, List.mem_append, List.mem_cons]
      exact hheld.imp_right .inl
    rcases List.mem_append.mp he with hdone | hfailed
    · obtain ⟨held, hheld, rfl⟩ := List.mem_map.mp hdone
      exact hdue held (hin held (.inl hheld))
    · rw [List.mem_singleton.mp hfailed]
      exact hdue failed (hin failed (.inr rfl))

end NemoMessenger.Client
