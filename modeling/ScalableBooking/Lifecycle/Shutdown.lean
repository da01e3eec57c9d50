import ScalableBooking.Lib.Runs

/-!
# The shutdown of a backend

`shutdown.ts`: `gracefulShutdown` awaits five teardowns one after another, and goes on when one
rejects. `registerShutdownHandlers` starts it at the first signal, with a budget. A second signal,
or the end of the budget, ends the process at once with code 1. At the end of the sequence it ends
with code 0.

What a teardown does is left to the events here: it settles at some time, or never. A run of the
process is then told by its log (`told_of_run`): how far the sequence has come, in which order, what
came of every teardown, and why the process has ended. What the teardowns do to the rest of the
process is in `Lifecycle.Pod`.
-/

namespace ScalableBooking.Lifecycle

/-! ### The sequence -/

/-- The teardowns, by the names that they have in the log. -/
inductive Teardown where
  | httpServer
  | kafkaProducer
  | kafkaCdcConsumer
  | holdExpiryWorker
  | postgresPool
deriving DecidableEq, Repr

def Teardown.name : Teardown → String
  | httpServer => "http-server"
  | kafkaProducer => "kafka-producer"
  | kafkaCdcConsumer => "kafka-cdc-consumer"
  | holdExpiryWorker => "hold-expiry-worker"
  | postgresPool => "postgres-pool"

/-- `steps` of `gracefulShutdown`. -/
def teardowns : List Teardown :=
  [.httpServer, .kafkaProducer, .kafkaCdcConsumer, .holdExpiryWorker, .postgresPool]

inductive Signal where
  | sigterm
  | sigint
deriving DecidableEq, Repr

def Signal.name : Signal → String
  | sigterm => "SIGTERM"
  | sigint => "SIGINT"

/-- The lines of the log. -/
inductive Line where
  | received (signal : Signal)
  | secondSignal (signal : Signal)
  | budgetExceeded (timeoutMs : ℕ)
  | closing (teardown : Teardown)
  | closed (teardown : Teardown)
  | errorClosing (teardown : Teardown) (message : String)
  | drainComplete
  | complete
deriving DecidableEq, Repr

/-- The text of a line. -/
def Line.text : Line → String
  | received signal => s!"[shutdown] {signal.name} received — draining in-flight work"
  | secondSignal signal =>
      s!"[shutdown] second {signal.name} during drain — forcing immediate exit"
  | budgetExceeded timeoutMs =>
      s!"[shutdown] drain exceeded {timeoutMs}ms budget — forcing exit"
  | closing teardown => s!"[shutdown] closing {teardown.name}"
  | closed teardown => s!"[shutdown] closed {teardown.name}"
  | errorClosing teardown message =>
      s!"[shutdown] error closing {teardown.name}: {message}"
  | drainComplete => "[shutdown] drain complete"
  | complete => "[shutdown] complete — exiting"

/-- How a teardown settles: it resolves, or rejects with an error. -/
abbrev Settled := Except String Unit

/-- What is logged when a teardown has settled. -/
def report (teardown : Teardown) : Settled → Line
  | .ok () => .closed teardown
  | .error message => .errorClosing teardown message

/-! ### The process -/

/-- While it drains the process awaits the first of `rest`, and the force timer is due at
`deadline`. -/
inductive Phase where
  | serving
  | draining (deadline : ℕ) (current : Teardown) (rest : List Teardown)
  | exited (code : ℕ)
deriving DecidableEq, Repr

structure Process where
  clock : ℕ
  log : List Line
  phase : Phase
deriving DecidableEq

/-- Time passes, a signal comes, the teardown that is awaited settles, or the force timer fires. -/
inductive Event where
  | tick (d : ℕ)
  | signal (signal : Signal)
  | settle (settled : Settled)
  | timer

namespace Process

/-- No signal has come. -/
def start (clock : ℕ) : Process := ⟨clock, [], .serving⟩

/-- `process.exit`. -/
def exit (pr : Process) (code : ℕ) (lines : List Line) : Process :=
  { pr with log := pr.log ++ lines, phase := .exited code }

/-- The loop of `gracefulShutdown` goes on, after the lines it has logged. -/
def close (pr : Process) (deadline : ℕ) (lines : List Line) : List Teardown → Process
  | [] => pr.exit 0 (lines ++ [.drainComplete, .complete])
  | current :: rest =>
      { pr with log := pr.log ++ (lines ++ [.closing current]),
                phase := .draining deadline current rest }

theorem mem_log_close {pr : Process} {deadline : ℕ} {lines : List Line} {rest : List Teardown}
    {line : Line} (h : line ∈ pr.log ∨ line ∈ lines) :
    line ∈ (pr.close deadline lines rest).log := by
  cases rest <;> (simp only [close, exit, List.mem_append]; tauto)

/-- One step, if the event can happen. Nothing happens in a process that has ended. -/
def step (timeoutMs : ℕ) (pr : Process) : Event → Option Process
  | .tick d =>
      match pr.phase with
      | .exited _ => none
      | _ => some { pr with clock := pr.clock + d }
  | .signal signal =>
      match pr.phase with
      | .serving => some (pr.close (pr.clock + timeoutMs) [.received signal] teardowns)
      | .draining _ _ _ => some (pr.exit 1 [.secondSignal signal])
      | .exited _ => none
  | .settle settled =>
      match pr.phase with
      | .draining deadline current rest =>
          some (pr.close deadline [report current settled] rest)
      | _ => none
  | .timer =>
      match pr.phase with
      | .draining deadline _ _ =>
          -- a timer is never early
          if deadline ≤ pr.clock then some (pr.exit 1 [.budgetExceeded timeoutMs]) else none
      | _ => none

/-- A run: its events one after another. -/
def run (timeoutMs : ℕ) (pr : Process) (es : List Event) : Option Process :=
  es.foldlM (step timeoutMs) pr

end Process

/-! ### What the log tells -/

/-- The time that passes. -/
def elapsed : List Event → ℕ
  | [] => 0
  | .tick d :: es => d + elapsed es
  | _ :: es => elapsed es

/-- The signals, with the times at which they come, from `clock` on. -/
def signals (clock : ℕ) : List Event → List (ℕ × Signal)
  | [] => []
  | .tick d :: es => signals (clock + d) es
  | .signal signal :: es => (clock, signal) :: signals clock es
  | _ :: es => signals clock es

/-- How the teardowns have settled, one after another. -/
def outcomes : List Event → List Settled
  | [] => []
  | .settle settled :: es => settled :: outcomes es
  | _ :: es => outcomes es

theorem elapsed_append (es es' : List Event) :
    elapsed (es ++ es') = elapsed es + elapsed es' := by
  induction es with
  | nil => simp [elapsed]
  | cons e es ih => cases e <;> simp [elapsed, ih, Nat.add_assoc]

theorem signals_append (clock : ℕ) (es es' : List Event) :
    signals clock (es ++ es') = signals clock es ++ signals (clock + elapsed es) es' := by
  induction es generalizing clock with
  | nil => simp [signals, elapsed]
  | cons e es ih => cases e <;> simp [signals, elapsed, ih, Nat.add_assoc]

theorem outcomes_append (es es' : List Event) :
    outcomes (es ++ es') = outcomes es ++ outcomes es' := by
  induction es with
  | nil => rfl
  | cons e es ih => cases e <;> simp [outcomes, ih]

/-- The lines about the teardowns that have settled. -/
def reports (settled : List Settled) : List Line :=
  (teardowns.zip settled).flatMap fun x => [.closing x.1, report x.1 x.2]

/-- A teardown is still awaited. -/
theorem length_lt_of_rest {settled : List Settled} {current : Teardown} {rest : List Teardown}
    (hrest : teardowns.drop settled.length = current :: rest) :
    settled.length < teardowns.length := by
  by_contra hle
  rw [List.drop_eq_nil_of_le (Nat.le_of_not_lt hle)] at hrest
  cases hrest

/-- One more teardown has settled. -/
theorem reports_concat {settled : List Settled} {current : Teardown} {rest : List Teardown}
    (hrest : teardowns.drop settled.length = current :: rest) (s : Settled) :
    reports (settled ++ [s]) = reports settled ++ [.closing current, report current s] := by
  obtain ⟨done, hsplit, hlength⟩ : ∃ done, teardowns = done ++ current :: rest ∧
      done.length = settled.length := by
    refine ⟨teardowns.take settled.length, ?_, ?_⟩
    · rw [← hrest, List.take_append_drop]
    · exact List.length_take_of_le (Nat.le_of_lt (length_lt_of_rest hrest))
  have hreports : reports settled = (done.zip settled).flatMap fun x =>
      [.closing x.1, report x.1 x.2] := by
    have hzip : (done ++ current :: rest).zip (settled ++ []) =
        done.zip settled ++ (current :: rest).zip [] := List.zip_append hlength
    rw [List.append_nil, List.zip_nil_right, List.append_nil, ← hsplit] at hzip
    unfold reports
    rw [hzip]
  rw [hreports]
  unfold reports
  rw [hsplit, List.zip_append hlength]
  simp

/-- What a process is at the time `now`, when `signals` and the outcomes `settled` are what has
come since it served. -/
inductive Told (timeoutMs now : ℕ) : List (ℕ × Signal) → List Settled → Process → Prop
  | serving : Told timeoutMs now [] [] ⟨now, [], .serving⟩
  | draining {t : ℕ} {signal : Signal} {settled : List Settled} {current : Teardown}
      {rest : List Teardown} (hrest : teardowns.drop settled.length = current :: rest) :
      Told timeoutMs now [(t, signal)] settled
        ⟨now, .received signal :: reports settled ++ [.closing current],
          .draining (t + timeoutMs) current rest⟩
  | complete {t : ℕ} {signal : Signal} {settled : List Settled}
      (hall : settled.length = teardowns.length) :
      Told timeoutMs now [(t, signal)] settled
        ⟨now, .received signal :: reports settled ++ [.drainComplete, .complete], .exited 0⟩
  | secondSignal {t t' : ℕ} {signal signal' : Signal} {settled : List Settled}
      {current : Teardown} {rest : List Teardown}
      (hrest : teardowns.drop settled.length = current :: rest) :
      Told timeoutMs now [(t, signal), (t', signal')] settled
        ⟨now, .received signal :: reports settled ++ [.closing current, .secondSignal signal'],
          .exited 1⟩
  | budgetExceeded {t : ℕ} {signal : Signal} {settled : List Settled} {current : Teardown}
      {rest : List Teardown} (hrest : teardowns.drop settled.length = current :: rest)
      (hlate : t + timeoutMs ≤ now) :
      Told timeoutMs now [(t, signal)] settled
        ⟨now, .received signal :: reports settled ++ [.closing current, .budgetExceeded timeoutMs],
          .exited 1⟩

namespace Told

variable {timeoutMs now : ℕ} {sigs : List (ℕ × Signal)} {settled : List Settled}
  {pr pr' : Process}

/-- `close`, when the lines agree with the outcomes on how far the sequence has come. -/
theorem close {t : ℕ} {signal : Signal} {log lines : List Line} {phase : Phase}
    {rest : List Teardown} (hle : settled.length ≤ teardowns.length)
    (hrest : teardowns.drop settled.length = rest)
    (hlog : log ++ lines = .received signal :: reports settled) :
    Told timeoutMs now [(t, signal)] settled
      (Process.close ⟨now, log, phase⟩ (t + timeoutMs) lines rest) := by
  cases rest with
  | nil =>
    have hall : settled.length = teardowns.length :=
      Nat.le_antisymm hle (List.drop_eq_nil_iff.mp hrest)
    show Told timeoutMs now _ _ ⟨now, log ++ (lines ++ [.drainComplete, .complete]), .exited 0⟩
    rw [← List.append_assoc, hlog]
    exact .complete hall
  | cons current rest =>
    show Told timeoutMs now _ _
      ⟨now, log ++ (lines ++ [.closing current]), .draining (t + timeoutMs) current rest⟩
    rw [← List.append_assoc, hlog]
    exact .draining hrest

/-- **The step lemma.** -/
theorem step {e : Event} (h : Told timeoutMs now sigs settled pr)
    (hs : pr.step timeoutMs e = some pr') :
    Told timeoutMs (now + elapsed [e]) (sigs ++ signals now [e]) (settled ++ outcomes [e]) pr' := by
  cases h with
  | serving =>
    cases e with
    | tick d =>
      obtain rfl : _ = pr' := Option.some.inj hs
      exact .serving
    | signal signal =>
      obtain rfl : _ = pr' := Option.some.inj hs
      exact close (Nat.zero_le _) rfl rfl
    | settle settled => cases hs
    | timer => cases hs
  | draining hrest =>
    cases e with
    | tick d =>
      obtain rfl : _ = pr' := Option.some.inj hs
      show Told timeoutMs (now + d) _ (settled ++ []) _
      rw [List.append_nil]
      exact .draining hrest
    | signal signal =>
      obtain rfl : _ = pr' := Option.some.inj hs
      show Told timeoutMs now _ (settled ++ []) ⟨now, _ ++ [.secondSignal signal], .exited 1⟩
      rw [List.append_nil, List.append_assoc]
      exact .secondSignal hrest
    | settle outcome =>
      obtain rfl : _ = pr' := Option.some.inj hs
      show Told timeoutMs now _ (settled ++ [outcome]) _
      have hdrop := congrArg List.tail hrest
      rw [List.tail_drop] at hdrop
      refine close ?_ ?_ ?_
      · rw [List.length_append]
        exact length_lt_of_rest hrest
      · rw [List.length_append]
        exact hdrop
      · rw [reports_concat hrest]
        simp
    | timer =>
      obtain ⟨hlate, hs⟩ := Option.ite_none_right_eq_some.mp hs
      obtain rfl : _ = pr' := Option.some.inj hs
      show Told timeoutMs now _ (settled ++ [])
        ⟨now, _ ++ [.budgetExceeded timeoutMs], .exited 1⟩
      rw [List.append_nil, List.append_assoc]
      exact .budgetExceeded hrest hlate
  | complete => cases e <;> cases hs
  | secondSignal => cases e <;> cases hs
  | budgetExceeded => cases e <;> cases hs

end Told

/-- **The log tells the run.** The time, the signals and the outcomes of the teardowns give the
phase and every line of the log. -/
theorem told_of_run {timeoutMs clock : ℕ} {es : List Event} {pr : Process}
    (hrun : (Process.start clock).run timeoutMs es = some pr) :
    Told timeoutMs (clock + elapsed es) (signals clock es) (outcomes es) pr := by
  refine Runs.foldlM_history (I := fun past pr =>
    Told timeoutMs (clock + elapsed past) (signals clock past) (outcomes past) pr) hrun .serving ?_
  intro past pr pr' e he htold
  rw [elapsed_append, signals_append, outcomes_append, ← Nat.add_assoc]
  exact htold.step he

/-- A teardown that rejects, and a budget that ends while the next one hangs. -/
theorem told_of_run_late :
    Told 25000 25010 [(10, .sigterm)] [.ok (), .error "no broker"]
      ⟨25010,
        [.received .sigterm, .closing .httpServer, .closed .httpServer, .closing .kafkaProducer,
          .errorClosing .kafkaProducer "no broker", .closing .kafkaCdcConsumer,
          .budgetExceeded 25000],
        .exited 1⟩ :=
  have hrun : (Process.start 0).run 25000
      [.tick 10, .signal .sigterm, .tick 5, .settle (.ok ()), .settle (.error "no broker"),
        .tick 24995, .timer] = some _ := rfl
  told_of_run hrun

end ScalableBooking.Lifecycle
