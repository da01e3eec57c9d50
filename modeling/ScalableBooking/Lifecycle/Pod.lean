import ScalableBooking.Lifecycle.Shutdown
import ScalableBooking.Lifecycle.HttpDrain

/-!
# A backend that shuts down

The process of `Lifecycle.Shutdown` with what its teardowns close: the server of
`Lifecycle.HttpDrain`, the producer, the consumer of the change stream, the worker with its queue,
and the pool. A handler publishes through the producer, schedules through the queue and reads
through the pool. A job of the worker needs the pool.

A teardown that resolves has stopped its part, so what a part needs is closed after it. In every run
a handler finds all three open as long as its connection is, unless `closeServer` has rejected, and
a job finds the pool open unless `stopHoldExpiryWorker` has (`safe_of_run`). Nothing waits for a
handler whose connection has ended.

`stopCdcConsumer` does nothing when the consumer has lost its connection. kafkajs may then connect
it again by itself, and it outlives its teardown.
-/

namespace ScalableBooking.Lifecycle

/-- `worker` takes jobs, and `job` says that one is being processed. `connected` is the flag of
`cdc-consumer.ts`, and `skipped` holds when `stopCdcConsumer` has found it unset. The others are
open or not. -/
structure Pod where
  process : Process
  server : Server
  producer : Bool
  connected : Bool
  skipped : Bool
  cdcConsumer : Bool
  worker : Bool
  job : Bool
  queue : Bool
  pool : Bool
deriving DecidableEq

/-- An event of the process or of the server, or kafkajs says that the consumer has lost its
connection (`CRASH` or `DISCONNECT`) or has it again (`CONNECT`), or a job is taken or ends, or the
worker, having stopped, closes its queue. -/
inductive PodEvent where
  | process (e : Event)
  | http (e : HttpEvent)
  | cdcDisconnect
  | cdcConnect
  | takeJob
  | finishJob
  | closeHoldExpiryQueue

/-- The place of a teardown in the sequence. -/
def Teardown.rank : Teardown → ℕ
  | httpServer => 0
  | kafkaProducer => 1
  | kafkaCdcConsumer => 2
  | holdExpiryWorker => 3
  | postgresPool => 4

theorem Teardown.rank_of_drop {n : ℕ} {t : Teardown} {rest : List Teardown}
    (h : t :: rest = teardowns.drop n) : t.rank = n ∧ rest = teardowns.drop (n + 1) := by
  have hget : teardowns[n]? = some t := by
    rw [← List.head?_drop, ← h]
    rfl
  refine ⟨?_, ?_⟩
  · obtain _ | _ | _ | _ | _ | n := n <;> cases hget <;> rfl
  · rw [← List.tail_drop, ← h]
    rfl

namespace Pod

/-- `index.ts` has come to listen. -/
def start (clock : ℕ) : Pod where
  process := .start clock
  server := { Server.start with attached := true, listening := true }
  producer := true
  connected := true
  skipped := false
  cdcConsumer := true
  worker := true
  job := false
  queue := true
  pool := true

def stopCdcConsumer (pod : Pod) : Pod :=
  if !pod.connected then { pod with skipped := true } else { pod with cdcConsumer := false }

/-- What a teardown does at once. -/
def begin (node : Node) (pod : Pod) : Teardown → Pod
  | .httpServer => { pod with server := (pod.server.step node .closeServer).getD pod.server }
  | .kafkaProducer => { pod with producer := false }
  | .kafkaCdcConsumer => pod.stopCdcConsumer
  | .holdExpiryWorker => { pod with worker := false }
  | .postgresPool => { pod with pool := false }

/-- A part has stopped. -/
def Stopped (pod : Pod) : Teardown → Prop
  | .httpServer => pod.server.Drained
  | .kafkaProducer => pod.producer = false
  | .kafkaCdcConsumer => pod.cdcConsumer = false
  | .holdExpiryWorker => pod.worker = false ∧ pod.job = false ∧ pod.queue = false
  | .postgresPool => pod.pool = false

instance (pod : Pod) : (t : Teardown) → Decidable (pod.Stopped t)
  | .httpServer => inferInstanceAs (Decidable pod.server.Drained)
  | .kafkaProducer => inferInstanceAs (Decidable (_ = _))
  | .kafkaCdcConsumer => inferInstanceAs (Decidable (_ = _))
  | .holdExpiryWorker => inferInstanceAs (Decidable (_ ∧ _ ∧ _))
  | .postgresPool => inferInstanceAs (Decidable (_ = _))

/-- The teardown that the process awaits. -/
def current (pod : Pod) : Option Teardown :=
  match pod.process.phase with
  | .draining _ current _ => some current
  | _ => none

/-- The promise of a teardown can resolve: its part has stopped, or there was nothing to do. -/
def MayResolve (pod : Pod) (t : Teardown) : Prop :=
  pod.Stopped t ∨ t = .kafkaCdcConsumer ∧ pod.skipped = true

instance (pod : Pod) (t : Teardown) : Decidable (pod.MayResolve t) :=
  inferInstanceAs (Decidable (_ ∨ _))

/-- It can settle so. -/
def MaySettle (pod : Pod) : Event → Prop
  | .settle (.ok ()) => ∀ t ∈ pod.current, pod.MayResolve t
  | _ => True

instance (pod : Pod) : (e : Event) → Decidable (pod.MaySettle e)
  | .settle (.ok ()) => inferInstanceAs (Decidable (∀ t ∈ pod.current, pod.MayResolve t))
  | .settle (.error _) => isTrue trivial
  | .tick _ => isTrue trivial
  | .signal _ => isTrue trivial
  | .timer => isTrue trivial

/-- After a signal and after a teardown has settled, the next teardown begins. -/
def next (node : Node) (e : Event) (pod : Pod) : Pod :=
  match e, pod.current with
  | .signal _, some current | .settle _, some current => pod.begin node current
  | _, _ => pod

theorem stopCdcConsumer_eq (pod : Pod) :
    pod.stopCdcConsumer =
      { pod with
        skipped := pod.skipped || !pod.connected
        cdcConsumer := pod.cdcConsumer && !pod.connected } := by
  obtain ⟨_, _, _, connected, skipped, cdcConsumer, _, _, _, _⟩ := pod
  cases connected <;> cases skipped <;> cases cdcConsumer <;> rfl

@[simp] theorem process_begin (node : Node) (pod : Pod) (t : Teardown) :
    (pod.begin node t).process = pod.process := by
  cases t with
  | kafkaCdcConsumer => exact (congrArg Pod.process pod.stopCdcConsumer_eq :)
  | _ => rfl

theorem skipped_begin (node : Node) (pod : Pod) (t : Teardown) (h : pod.skipped = true) :
    (pod.begin node t).skipped = true := by
  cases t with
  | kafkaCdcConsumer => simp [begin, stopCdcConsumer_eq, h]
  | _ => exact h

@[simp] theorem server_begin (node : Node) (pod : Pod) {t : Teardown} (ht : t ≠ .httpServer) :
    (pod.begin node t).server = pod.server := by
  cases t with
  | httpServer => exact absurd rfl ht
  | kafkaCdcConsumer => exact (congrArg Pod.server pod.stopCdcConsumer_eq :)
  | _ => rfl

def exited (pod : Pod) : Bool :=
  match pod.process.phase with
  | .exited _ => true
  | _ => false

/-- One step, if the event can happen. Only a teardown calls `closeServer`. -/
def step (node : Node) (timeoutMs : ℕ) (pod : Pod) : PodEvent → Option Pod
  | .process e =>
      if pod.MaySettle e then
        (pod.process.step timeoutMs e).map fun process =>
          next node e { pod with process := process }
      else none
  | .http e =>
      if pod.exited || e = .closeServer then none
      else (pod.server.step node e).map fun server => { pod with server := server }
  | .cdcDisconnect => if pod.exited then none else some { pod with connected := false }
  | .cdcConnect =>
      if pod.exited || !pod.cdcConsumer then none else some { pod with connected := true }
  | .takeJob =>
      if pod.exited || !pod.worker || pod.job then none else some { pod with job := true }
  | .finishJob =>
      if pod.exited || !pod.job then none else some { pod with job := false }
  | .closeHoldExpiryQueue =>
      if pod.current = some .holdExpiryWorker && !pod.job then some { pod with queue := false }
      else none

def run (node : Node) (timeoutMs : ℕ) (pod : Pod) (es : List PodEvent) : Option Pod :=
  es.foldlM (step node timeoutMs) pod

/-! ### How far the shutdown has come -/

/-- What is so before a teardown begins. -/
def Opened (pod : Pod) : Teardown → Prop
  | .httpServer => pod.server.closing = false
  | .kafkaProducer => pod.producer = true
  | .kafkaCdcConsumer => pod.cdcConsumer = true
  | .holdExpiryWorker => pod.worker = true ∧ pod.queue = true
  | .postgresPool => pod.pool = true

/-- A teardown has rejected. -/
def Failed (pod : Pod) (t : Teardown) : Prop :=
  ∃ message, .errorClosing t message ∈ pod.process.log

variable {node : Node} {timeoutMs n : ℕ} {pod pod' : Pod} {t t' : Teardown}

/-- Only the part of a teardown is closed. -/
theorem Opened.begin (h : pod.Opened t') (hne : t' ≠ t) : (pod.begin node t).Opened t' := by
  cases t with
  | kafkaCdcConsumer =>
    simp only [Pod.begin, stopCdcConsumer_eq]
    cases t' <;> first | exact h | exact absurd rfl hne
  | _ => cases t' <;> first | exact h | exact absurd rfl hne

theorem Stopped.begin (hdrained : pod.server.Drained → (pod.begin node t).server.Drained)
    (h : pod.Stopped t') : (pod.begin node t).Stopped t' := by
  cases t' with
  | httpServer => exact hdrained h
  | holdExpiryWorker =>
    obtain ⟨hworker, hjob, hqueue⟩ := h
    cases t with
    | kafkaCdcConsumer =>
      simp only [Pod.begin, stopCdcConsumer_eq]
      exact ⟨hworker, hjob, hqueue⟩
    | holdExpiryWorker => exact ⟨rfl, hjob, hqueue⟩
    | _ => exact ⟨hworker, hjob, hqueue⟩
  | kafkaCdcConsumer =>
    have hclosed : pod.cdcConsumer = false := h
    cases t with
    | kafkaCdcConsumer => simp [Stopped, Pod.begin, stopCdcConsumer_eq, hclosed]
    | _ => exact h
  | _ =>
    cases t with
    | kafkaCdcConsumer =>
      simp only [Pod.begin, stopCdcConsumer_eq]
      exact h
    | _ => first | exact h | rfl

/-- `n` teardowns have begun, and all but the last of them have settled. -/
structure Progress (n : ℕ) (pod : Pod) : Prop where
  deaf : pod.server.Deaf
  opened : ∀ t, n ≤ t.rank → pod.Opened t
  settled : ∀ t, t.rank + 1 < n → pod.MayResolve t ∨ pod.Failed t

/-- What has been stopped stays so. -/
theorem MayResolve.mono (h : pod.MayResolve t)
    (hstopped : pod.Stopped t → pod'.Stopped t)
    (hskipped : pod.skipped = true → pod'.skipped = true) : pod'.MayResolve t :=
  h.imp hstopped (And.imp_right hskipped)

namespace Progress

/-- Something else than the process changes. -/
theorem mono (h : Progress n pod) (hprocess : pod'.process = pod.process)
    (hdeaf : pod'.server.Deaf) (hskipped : pod.skipped = true → pod'.skipped = true)
    (hopened : ∀ t, n ≤ t.rank → pod.Opened t → pod'.Opened t)
    (hstopped : ∀ t, pod.Stopped t → pod'.Stopped t) : Progress n pod' where
  deaf := hdeaf
  opened t ht := hopened t ht (h.opened t ht)
  settled t ht := by
    unfold Failed
    rw [hprocess]
    exact (h.settled t ht).imp_left fun hmay => hmay.mono (hstopped t) hskipped

/-- The process logs something. -/
theorem log (h : Progress n pod) (process : Process)
    (hlog : ∀ line ∈ pod.process.log, line ∈ process.log) :
    Progress n { pod with process := process } where
  deaf := h.deaf
  opened t ht := by
    have := h.opened t ht
    cases t <;> exact this
  settled t ht := by
    refine (h.settled t ht).imp ?_ ?_
    · refine fun hmay => hmay.mono (fun hstopped => ?_) id
      cases t <;> exact hstopped
    · rintro ⟨message, hmem⟩
      exact ⟨message, hlog _ hmem⟩

/-- An event of the server, or none. -/
theorem server {e : HttpEvent} (h : Progress n pod) (server : Server)
    (hs : pod.server.step node e = some server ∨ server = pod.server) :
    server.Deaf ∧ (pod.server.Drained → server.Drained) := by
  obtain hs | rfl := hs
  · exact ⟨h.deaf.step hs, fun hdrained => h.deaf.drained_step hdrained hs⟩
  · exact ⟨h.deaf, id⟩

/-- The next teardown begins when the last one has settled. -/
theorem begin (h : Progress n pod) (ht : t.rank = n)
    (hsettled : ∀ t, t.rank + 1 = n → pod.MayResolve t ∨ pod.Failed t) :
    Progress (n + 1) (pod.begin node t) := by
  have hs : pod.server.step node .closeServer = some (pod.begin node t).server ∨
      (pod.begin node t).server = pod.server := by
    by_cases hhttp : t = .httpServer
    · subst hhttp
      cases hs : pod.server.step node .closeServer with
      | none => exact .inr (by simp [Pod.begin, hs])
      | some server => exact .inl (by simp [Pod.begin, hs])
    · exact .inr (server_begin node pod hhttp)
  obtain ⟨hdeaf, hdrained⟩ := h.server _ hs
  refine ⟨hdeaf, ?_, ?_⟩
  · intro t' ht'
    have hopened := h.opened t' (by omega)
    refine hopened.begin ?_
    rintro rfl
    omega
  · intro t' ht'
    have hold : pod.MayResolve t' ∨ pod.Failed t' := by
      obtain hlt | heq : t'.rank + 1 < n ∨ t'.rank + 1 = n := by omega
      · exact h.settled t' hlt
      · exact hsettled t' heq
    refine hold.imp ?_ ?_
    · exact fun hmay => hmay.mono (Stopped.begin hdrained) (skipped_begin node pod t)
    · unfold Failed
      rw [process_begin]
      exact id

end Progress

/-- The number of teardowns that have begun, as the process has it. -/
def Begun (n : ℕ) : Phase → Prop
  | .serving => n = 0
  | .draining _ current rest => n = current.rank + 1 ∧ rest = teardowns.drop n
  | .exited code => code = 0 → n = teardowns.length + 1

/-- **The invariant.** -/
def Orderly (pod : Pod) : Prop :=
  ∃ n, Progress n pod ∧ Begun n pod.process.phase

theorem orderly_start (clock : ℕ) : Orderly (start clock) := by
  refine ⟨0, ⟨nofun, ?_, fun t ht => absurd ht (Nat.not_lt_zero _)⟩, rfl⟩
  rintro (_ | _ | _ | _ | _) - <;> first | rfl | exact ⟨rfl, rfl⟩

/-- The sequence goes on after `lines`, which say that the last teardown has settled. -/
theorem Progress.close {e : Event} {deadline : ℕ} {lines : List Line} {rest : List Teardown}
    (h : Progress n pod) (hn : n ≤ teardowns.length) (hrest : rest = teardowns.drop n)
    (hsettled : ∀ t, t.rank + 1 = n →
      pod.MayResolve t ∨ ∃ message, .errorClosing t message ∈ lines)
    (he : (∃ signal, e = .signal signal) ∨ ∃ settled, e = .settle settled) :
    Orderly (next node e { pod with process := pod.process.close deadline lines rest }) := by
  have hlog := h.log (pod.process.close deadline lines rest) fun line hline =>
    Process.mem_log_close (.inl hline)
  have hlast : ∀ t, t.rank + 1 = n →
      { pod with process := pod.process.close deadline lines rest }.MayResolve t ∨
        { pod with process := pod.process.close deadline lines rest }.Failed t := by
    intro t ht
    refine (hsettled t ht).imp ?_ ?_
    · refine fun hmay => hmay.mono (fun hstopped => ?_) id
      cases t <;> exact hstopped
    · rintro ⟨message, hmem⟩
      exact ⟨message, Process.mem_log_close (.inr hmem)⟩
  cases rest with
  | nil =>
    have hall : n = teardowns.length := Nat.le_antisymm hn (List.drop_eq_nil_iff.mp hrest.symm)
    have hnext : next node e { pod with process := pod.process.close deadline lines [] } =
        { pod with process := pod.process.close deadline lines [] } := by
      obtain ⟨signal, rfl⟩ | ⟨settled, rfl⟩ := he <;> rfl
    rw [hnext]
    refine ⟨n + 1, ⟨hlog.deaf, ?_, ?_⟩, fun _ => by rw [hall]⟩
    · intro t ht
      have hlength : teardowns.length = 5 := rfl
      cases t <;> (simp only [Teardown.rank] at ht; omega)
    · intro t ht
      obtain hlt | heq : t.rank + 1 < n ∨ t.rank + 1 = n := by omega
      · exact hlog.settled t hlt
      · exact hlast t heq
  | cons t rest =>
    obtain ⟨hrank, hrest⟩ := Teardown.rank_of_drop hrest
    have hnext : next node e
          { pod with process := pod.process.close deadline lines (t :: rest) } =
        { pod with process := pod.process.close deadline lines (t :: rest) }.begin node t := by
      obtain ⟨signal, rfl⟩ | ⟨settled, rfl⟩ := he <;> rfl
    rw [hnext]
    refine ⟨n + 1, hlog.begin hrank hlast, ?_⟩
    rw [process_begin]
    exact ⟨by rw [hrank], hrest⟩

namespace Orderly

variable (h : Orderly pod)

include h

/-- What is not the process changes. -/
theorem mono (hprocess : pod'.process = pod.process) (hdeaf : pod'.server.Deaf)
    (hskipped : pod.skipped = true → pod'.skipped = true)
    (hopened : ∀ t, t ∉ pod.current → pod.Opened t → pod'.Opened t)
    (hstopped : ∀ t, pod.Stopped t → pod'.Stopped t) : Orderly pod' := by
  obtain ⟨n, hprogress, hbegun⟩ := h
  refine ⟨n, hprogress.mono hprocess hdeaf hskipped ?_ hstopped, by rwa [hprocess]⟩
  intro t ht
  refine hopened t ?_
  intro hcurrent
  unfold current at hcurrent
  split at hcurrent
  · rename_i hphase
    rw [hphase] at hbegun
    cases hcurrent
    have := hbegun.1
    omega
  · cases hcurrent

theorem server {e : HttpEvent} {server : Server} (he : e ≠ .closeServer)
    (hs : pod.server.step node e = some server) :
    Orderly { pod with server := server } := by
  obtain ⟨n, hprogress, -⟩ := id h
  obtain ⟨hdeaf, hdrained⟩ := hprogress.server _ (.inl hs)
  refine h.mono rfl hdeaf id ?_ ?_
  · intro t ht hopened
    cases t with
    | httpServer => exact (Server.closing_step hs he).trans hopened
    | _ => exact hopened
  · intro t hstopped
    cases t with
    | httpServer => exact hdrained hstopped
    | _ => exact hstopped

/-- The process is ended, by a second signal or by the timer. -/
theorem exit (lines : List Line) {e : Event} (he : ∀ settled, e ≠ .settle settled) :
    Orderly (next node e { pod with process := pod.process.exit 1 lines }) := by
  obtain ⟨n, hprogress, -⟩ := h
  have hnext : next node e { pod with process := pod.process.exit 1 lines } =
      { pod with process := pod.process.exit 1 lines } := by
    cases e <;> rfl
  rw [hnext]
  refine ⟨n, hprogress.log _ fun line hline => List.mem_append_left _ hline, nofun⟩

theorem process {e : Event} {process : Process} (hmay : pod.MaySettle e)
    (hs : pod.process.step timeoutMs e = some process) :
    Orderly (next node e { pod with process := process }) := by
  obtain ⟨n, hprogress, hbegun⟩ := id h
  cases hphase : pod.process.phase with
  | serving =>
    rw [hphase] at hbegun
    obtain rfl : n = 0 := hbegun
    cases e with
    | tick d =>
      simp only [Process.step, hphase] at hs
      obtain rfl : _ = process := Option.some.inj hs
      exact ⟨0, hprogress.log _ fun _ => id, rfl⟩
    | signal signal =>
      simp only [Process.step, hphase] at hs
      obtain rfl : _ = process := Option.some.inj hs
      exact hprogress.close (Nat.zero_le _) rfl nofun (.inl ⟨signal, rfl⟩)
    | settle settled => simp [Process.step, hphase] at hs
    | timer => simp [Process.step, hphase] at hs
  | draining deadline current rest =>
    rw [hphase] at hbegun
    obtain ⟨rfl, hrest⟩ := hbegun
    cases e with
    | tick d =>
      simp only [Process.step, hphase] at hs
      obtain rfl : _ = process := Option.some.inj hs
      exact ⟨current.rank + 1, hprogress.log _ fun _ => id, rfl, hrest⟩
    | signal signal =>
      simp only [Process.step, hphase] at hs
      obtain rfl : _ = process := Option.some.inj hs
      exact h.exit _ nofun
    | settle settled =>
      simp only [Process.step, hphase] at hs
      obtain rfl : _ = process := Option.some.inj hs
      refine hprogress.close ?_ hrest ?_ (.inr ⟨settled, rfl⟩)
      · cases current <;> decide
      · intro t ht
        obtain rfl : t = current := by
          cases t <;> cases current <;> first | rfl | simp [Teardown.rank] at ht
        obtain message | ⟨⟩ := settled
        · exact .inr ⟨message, List.mem_singleton.mpr rfl⟩
        · refine .inl (hmay t ?_)
          simp [Pod.current, hphase]
    | timer =>
      simp only [Process.step, hphase] at hs
      obtain ⟨-, hs⟩ := Option.ite_none_right_eq_some.mp hs
      obtain rfl : _ = process := Option.some.inj hs
      exact h.exit _ nofun
  | exited code => cases e <;> simp [Process.step, hphase] at hs

/-- **The step lemma.** -/
theorem step {e : PodEvent} (hs : pod.step node timeoutMs e = some pod') :
    Orderly pod' := by
  cases e with
  | process e =>
    obtain ⟨hmay, hs⟩ := Option.ite_none_right_eq_some.mp hs
    obtain ⟨process, hprocess, rfl⟩ := Option.map_eq_some_iff.mp hs
    exact h.process hmay hprocess
  | http e =>
    obtain ⟨hguard, hs⟩ := Option.ite_none_left_eq_some.mp hs
    obtain ⟨server, hserver, rfl⟩ := Option.map_eq_some_iff.mp hs
    exact h.server (fun he => hguard (by simp [he])) hserver
  | cdcDisconnect | cdcConnect =>
    obtain ⟨-, hs⟩ := Option.ite_none_left_eq_some.mp hs
    obtain rfl : _ = pod' := Option.some.inj hs
    obtain ⟨n, hprogress, -⟩ := id h
    refine h.mono rfl hprogress.deaf id (fun t _ hopened => ?_) fun t hstopped => ?_
    · cases t <;> exact hopened
    · cases t <;> exact hstopped
  | takeJob =>
    obtain ⟨hguard, hs⟩ := Option.ite_none_left_eq_some.mp hs
    obtain rfl : _ = pod' := Option.some.inj hs
    obtain ⟨n, hprogress, -⟩ := id h
    refine h.mono rfl hprogress.deaf id (fun t _ hopened => ?_) ?_
    · cases t <;> exact hopened
    · intro t hstopped
      cases t with
      | holdExpiryWorker => simp [hstopped.1] at hguard
      | _ => exact hstopped
  | finishJob =>
    obtain ⟨-, hs⟩ := Option.ite_none_left_eq_some.mp hs
    obtain rfl : _ = pod' := Option.some.inj hs
    obtain ⟨n, hprogress, -⟩ := id h
    refine h.mono rfl hprogress.deaf id (fun t _ hopened => ?_) ?_
    · cases t <;> exact hopened
    · intro t hstopped
      cases t with
      | holdExpiryWorker => exact ⟨hstopped.1, rfl, hstopped.2.2⟩
      | _ => exact hstopped
  | closeHoldExpiryQueue =>
    obtain ⟨hguard, hs⟩ := Option.ite_none_right_eq_some.mp hs
    obtain rfl : _ = pod' := Option.some.inj hs
    obtain ⟨n, hprogress, -⟩ := id h
    refine h.mono rfl hprogress.deaf id ?_ ?_
    · intro t ht hopened
      cases t with
      | holdExpiryWorker =>
        -- its queue is closed by its own teardown only
        simp only [Bool.and_eq_true, decide_eq_true_eq] at hguard
        exact absurd hguard.1 ht
      | _ => exact hopened
    · intro t hstopped
      cases t with
      | holdExpiryWorker => exact ⟨hstopped.1, hstopped.2.1, rfl⟩
      | _ => exact hstopped

end Orderly

theorem Orderly.of_run {clock : ℕ} {es : List PodEvent}
    (hrun : (start clock).run node timeoutMs es = some pod) : Orderly pod :=
  Runs.foldlM_induction hrun (orderly_start clock) fun _ _ _ _ hs h => h.step hs

/-- **Nothing is closed under what needs it.** A handler whose connection is open has the producer,
the queue and the pool open, unless `closeServer` has rejected. A job has the pool open, unless
`stopHoldExpiryWorker` has. When the process exits with code 0, every part has stopped whose
teardown has not rejected, but for a consumer that was not connected when its teardown began. -/
theorem safe_of_run {clock : ℕ} {es : List PodEvent}
    (hrun : (start clock).run node timeoutMs es = some pod) :
    (∀ conn ∈ pod.server.conns, conn.live = true → ∀ res ∈ conn.outgoing, res.ended = false →
        pod.producer = true ∧ pod.queue = true ∧ pod.pool = true ∨ pod.Failed .httpServer) ∧
      (pod.job = true → pod.pool = true ∨ pod.Failed .holdExpiryWorker) ∧
      (pod.process.phase = .exited 0 → ∀ t, pod.Stopped t ∨ pod.Failed t ∨
        t = .kafkaCdcConsumer ∧ pod.skipped = true) := by
  obtain ⟨n, h, hbegun⟩ := Orderly.of_run hrun
  refine ⟨?_, ?_, ?_⟩
  · intro conn hconn hlive res _ _
    by_cases hn : 1 < n
    · refine .inr ((h.settled .httpServer hn).resolve_left ?_)
      rintro (⟨-, hended⟩ | ⟨⟨⟩, -⟩)
      rw [hended conn hconn] at hlive
      cases hlive
    · refine .inl ⟨h.opened .kafkaProducer ?_, (h.opened .holdExpiryWorker ?_).2,
        h.opened .postgresPool ?_⟩ <;> simp only [Teardown.rank] <;> omega
  · intro hjob
    by_cases hn : 4 < n
    · refine .inr ((h.settled .holdExpiryWorker hn).resolve_left ?_)
      rintro (⟨-, hnone, -⟩ | ⟨⟨⟩, -⟩)
      rw [hjob] at hnone
      cases hnone
    · refine .inl (h.opened .postgresPool ?_)
      simp only [Teardown.rank]
      omega
  · intro hexit t
    rw [hexit] at hbegun
    have hsettled := h.settled t <| by
      rw [hbegun rfl]
      cases t <;> decide
    obtain (hstopped | hskipped) | hfailed := hsettled
    · exact .inl hstopped
    · exact .inr (.inr hskipped)
    · exact .inr (.inl hfailed)

/-- Two requests and a job are in flight when the signal comes. The client of the second request
hangs up, and its handler runs on. -/
def halfway : Pod where
  process :=
    { clock := 7
      log := [.received .sigterm, .closing .httpServer]
      phase := .draining 25007 .httpServer
        [.kafkaProducer, .kafkaCdcConsumer, .holdExpiryWorker, .postgresPool] }
  server := ⟨false, true, true, true, true,
    [⟨true, .received, [⟨true, false⟩]⟩, ⟨false, .received, [⟨true, false⟩]⟩]⟩
  producer := true
  connected := true
  skipped := false
  cdcConsumer := true
  worker := true
  job := true
  queue := true
  pool := true

def toHalfway : List PodEvent :=
  [.http .accept, .http .accept, .http (.conn 0 .receive), .http (.conn 0 .request),
    .http (.conn 0 .received), .http (.conn 1 .receive), .http (.conn 1 .request),
    .http (.conn 1 .received), .takeJob, .process (.tick 7), .process (.signal .sigterm),
    .http .preClosed, .http (.conn 1 .hangUp)]

theorem safe_of_run_halfway :
    (∀ conn ∈ halfway.server.conns, conn.live = true → ∀ res ∈ conn.outgoing,
        res.ended = false → halfway.producer = true ∧ halfway.queue = true ∧
          halfway.pool = true ∨ halfway.Failed .httpServer) ∧
      (halfway.job = true → halfway.pool = true ∨ halfway.Failed .holdExpiryWorker) ∧
      (halfway.process.phase = .exited 0 → ∀ t, halfway.Stopped t ∨ halfway.Failed t ∨
        t = .kafkaCdcConsumer ∧ halfway.skipped = true) :=
  have hrun : (start 0).run ⟨true, true⟩ 25000 toHalfway = some halfway := rfl
  safe_of_run hrun

/-- The other response ends the drain. The handler that nothing waits for has not ended when the
process exits, and the consumer outlives its teardown. -/
example : (halfway.run ⟨true, true⟩ 25000 [.http (.conn 0 (.ended 0)),
      .http (.conn 0 (.finish 0 true)), .process (.settle (.ok ())), .cdcDisconnect,
      .process (.settle (.ok ())), .process (.settle (.ok ())), .cdcConnect, .finishJob,
      .closeHoldExpiryQueue, .process (.settle (.ok ())), .process (.settle (.ok ()))]).map
      (fun pod => (pod.process.phase, pod.cdcConsumer, pod.server.conns[1]?)) =
    some (.exited 0, true, some ⟨false, .received, [⟨true, false⟩]⟩) := by
  decide

end Pod

end ScalableBooking.Lifecycle
