import ScalableBooking.LbProxy.Headers
import ScalableBooking.LbProxy.Proxy

/-!
# The life of a tracked body

`TrackedBody<B>` of `lb-proxy/src/proxy.rs` with the body it wraps. Its two flags are the
`TrackedBody` of the proxy's state; here they stand beside an inner body that is any value
with the methods of the trait `Body`, and the server connection calls these methods in any
order and drops the wrapper at any point.

The flag `done` counts the calls of `on_done`: each method call raises the number of calls by
as much as the flag (`Wrapped.count_calls`), and `Drop` raises it to one.
-/

namespace ScalableBooking.LbProxy

/-- A frame of a body. -/
inductive Frame (D : Type*) where
  | data (data : D)
  | trailers (trailers : Headers)

/-- `Poll`. -/
inductive Poll (α : Type*) where
  | pending
  | ready (value : α)

/-- `SizeHint`. -/
structure SizeHint where
  lower : ℕ
  upper : Option ℕ
deriving DecidableEq, Repr

/-- The trait `Body` for a type `B`. A poll reads its context, and with it all that the outside
contributes to the poll. -/
structure Body (B C D E : Type*) where
  pollFrame : B → C → Poll (Option (Except E (Frame D))) × B
  isEndStream : B → Bool
  sizeHint : B → SizeHint

/-- A method call of the server connection. -/
inductive Call (C : Type*) where
  | pollFrame (cx : C)
  | isEndStream
  | sizeHint

/-- What a method call returns. -/
inductive Answer (D E : Type*) where
  | pollFrame (poll : Poll (Option (Except E (Frame D))))
  | isEndStream (value : Bool)
  | sizeHint (value : SizeHint)

/-- What is seen of a tracked body: the values it returns and the calls of `on_done`. -/
inductive Output (D E : Type*) where
  | onDone
  | returns (answer : Answer D E)

variable {B C D E : Type*}

/-- The arm of the `match` in `poll_frame` that a result takes. -/
def Poll.kind : Poll (Option (Except E (Frame D))) → PollFrame
  | .pending => .pending
  | .ready (some (.ok _)) => .frame
  | .ready (some (.error _)) => .error
  | .ready none => .done

/-- Whether the body has produced an error or its end. -/
def Answer.final : Answer D E → Bool
  | .pollFrame poll => poll.kind = .error ∨ poll.kind = .done
  | .isEndStream _ | .sizeHint _ => false

namespace Output

/-- Whether `on_done` has been called. -/
def isOnDone : Output D E → Bool
  | .onDone => true
  | .returns _ => false

/-- The value returned, if any. -/
def answer? : Output D E → Option (Answer D E)
  | .onDone => none
  | .returns answer => some answer

/-- The trace of a piece of code that calls `on_done` or not. -/
def ofFinish (called : Bool) : List (Output D E) :=
  if called then [.onDone] else []

@[simp] theorem countP_ofFinish (called : Bool) :
    (ofFinish called : List (Output D E)).countP isOnDone = called.toNat := by
  cases called <;> rfl

@[simp] theorem filterMap_ofFinish (called : Bool) :
    (ofFinish called : List (Output D E)).filterMap answer? = [] := by
  cases called <;> rfl

end Output

namespace Body

/-- A method call on the inner body alone. -/
def call (body : Body B C D E) (inner : B) : Call C → Answer D E × B
  | .pollFrame cx => ((body.pollFrame inner cx).map .pollFrame id)
  | .isEndStream => (.isEndStream (body.isEndStream inner), inner)
  | .sizeHint => (.sizeHint (body.sizeHint inner), inner)

/-- What the inner body alone returns to a sequence of calls. -/
def answers (body : Body B C D E) (inner : B) : List (Call C) → List (Answer D E)
  | [] => []
  | c :: calls => (body.call inner c).1 :: body.answers (body.call inner c).2 calls

end Body

/-- `TrackedBody<B>`: the inner body and the flags. -/
structure Wrapped (B : Type*) where
  inner : B
  tracked : TrackedBody

namespace Wrapped

/-- `TrackedBody::new`. -/
def new (inner : B) : Wrapped B := ⟨inner, TrackedBody.new⟩

/-- The methods of `TrackedBody<B>`. `finish` runs before `poll_frame` returns. -/
def call (body : Body B C D E) (w : Wrapped B) : Call C → List (Output D E) × Wrapped B
  | .pollFrame cx =>
    let (poll, inner) := body.pollFrame w.inner cx
    let (tracked, called) := w.tracked.pollFrame poll.kind
    (Output.ofFinish called ++ [.returns (.pollFrame poll)], ⟨inner, tracked⟩)
  | .isEndStream => ([.returns (.isEndStream (body.isEndStream w.inner))], w)
  | .sizeHint => ([.returns (.sizeHint (body.sizeHint w.inner))], w)

/-- A sequence of calls. -/
def calls (body : Body B C D E) (w : Wrapped B) : List (Call C) → List (Output D E) × Wrapped B
  | [] => ([], w)
  | c :: cs =>
    let (out, w) := w.call body c
    let (outs, w) := w.calls body cs
    (out ++ outs, w)

/-- `Drop`. -/
def drop (w : Wrapped B) : List (Output D E) :=
  Output.ofFinish w.tracked.finish.2

/-- From `new` over a sequence of calls to the drop. -/
def lifetime (body : Body B C D E) (inner : B) (cs : List (Call C)) : List (Output D E) :=
  let (outs, w) := (new inner).calls body cs
  outs ++ w.drop

/-! ### One call -/

/-- A call returns what the inner body returns, and leaves the inner body as it leaves it. -/
theorem call_inner (body : Body B C D E) (w : Wrapped B) (c : Call C) :
    (w.call body c).1.filterMap Output.answer? = [(body.call w.inner c).1] ∧
      (w.call body c).2.inner = (body.call w.inner c).2 := by
  cases c with
  | pollFrame cx => exact ⟨by simp [call, Body.call, Output.answer?], rfl⟩
  | isEndStream => exact ⟨rfl, rfl⟩
  | sizeHint => exact ⟨rfl, rfl⟩

/-- The flag is set by the first error or end. -/
theorem done_call (body : Body B C D E) (w : Wrapped B) (c : Call C) :
    (w.call body c).2.tracked.done = (w.tracked.done || (body.call w.inner c).1.final) := by
  cases c with
  | pollFrame cx =>
    simp only [call, Body.call, Prod.map, Answer.final]
    cases h : (body.pollFrame w.inner cx).1.kind with
    | pending | frame => simp [TrackedBody.pollFrame]
    | error | done => simp [TrackedBody.pollFrame, TrackedBody.finish_eq]
  | isEndStream => exact (Bool.or_false _).symm
  | sizeHint => exact (Bool.or_false _).symm

/-- And `on_done` is called when the flag is set. -/
theorem count_call (body : Body B C D E) (w : Wrapped B) (c : Call C) :
    w.tracked.done.toNat + (w.call body c).1.countP Output.isOnDone =
      (w.call body c).2.tracked.done.toNat := by
  cases c with
  | pollFrame cx =>
    simp only [call, List.countP_append, Output.countP_ofFinish]
    cases h : (body.pollFrame w.inner cx).1.kind with
    | pending | frame => rfl
    | error | done =>
      obtain ⟨hdone, hcalled⟩ := TrackedBody.finish_eq w.tracked
      simp only [TrackedBody.pollFrame, hdone, hcalled]
      cases w.tracked.done <;> rfl
  | isEndStream => rfl
  | sizeHint => rfl

/-! ### A sequence of calls -/

/-- The values returned are those of the inner body. -/
theorem answers_calls (body : Body B C D E) (w : Wrapped B) (cs : List (Call C)) :
    (w.calls body cs).1.filterMap Output.answer? = body.answers w.inner cs := by
  induction cs generalizing w with
  | nil => rfl
  | cons c cs ih =>
    obtain ⟨hanswer, hinner⟩ := call_inner body w c
    simp only [calls, List.filterMap_append, hanswer, ih, hinner, Body.answers,
      List.singleton_append]

/-- The flag says whether an error or the end has been among them. -/
theorem done_calls (body : Body B C D E) (w : Wrapped B) (cs : List (Call C)) :
    (w.calls body cs).2.tracked.done =
      (w.tracked.done || (body.answers w.inner cs).any Answer.final) := by
  induction cs generalizing w with
  | nil => exact (Bool.or_false _).symm
  | cons c cs ih =>
    simp only [calls, ih, done_call, (call_inner body w c).2, Body.answers, List.any_cons,
      Bool.or_assoc]

/-- **The flag counts the calls of `on_done`.** -/
theorem count_calls (body : Body B C D E) (w : Wrapped B) (cs : List (Call C)) :
    w.tracked.done.toNat + (w.calls body cs).1.countP Output.isOnDone =
      (w.calls body cs).2.tracked.done.toNat := by
  induction cs generalizing w with
  | nil => rfl
  | cons c cs ih =>
    have hcall := count_call body w c
    have hcalls := ih (w.call body c).2
    simp only [calls, List.countP_append]
    omega

/-- `Drop` makes up for the call that has not happened. -/
theorem count_drop (w : Wrapped B) :
    w.tracked.done.toNat + (w.drop : List (Output D E)).countP Output.isOnDone = 1 := by
  rw [drop, Output.countP_ofFinish, (TrackedBody.finish_eq w.tracked).2]
  cases w.tracked.done <;> rfl

/-- `on_done` has run as soon as the body has produced an error or its end, and not before. -/
theorem onDone_mem_calls_new (body : Body B C D E) (inner : B) (cs : List (Call C)) :
    0 < ((new inner).calls body cs).1.countP Output.isOnDone ↔
      ∃ answer ∈ body.answers inner cs, answer.final = true := by
  have hcount := count_calls body (new inner) cs
  have hdone := done_calls body (new inner) cs
  rw [← List.any_eq_true]
  simp only [new, TrackedBody.new, Bool.toNat_false, Nat.zero_add, Bool.false_or] at hcount hdone
  rw [new, TrackedBody.new, hcount, hdone]
  cases (body.answers inner cs).any Answer.final <;> simp

/-- **A tracked body releases exactly once.** Whatever the inner body yields and whatever is
called before the drop, `on_done` runs once in the body's lifetime; after every `n` of the calls
it has run if and only if an error or the end is among the values returned; and every value
returned is the inner body's. -/
theorem onDone_exactly_once (body : Body B C D E) (inner : B) (cs : List (Call C)) :
    (lifetime body inner cs).countP Output.isOnDone = 1 ∧
      (∀ n, 0 < ((new inner).calls body (cs.take n)).1.countP Output.isOnDone ↔
        ∃ answer ∈ body.answers inner (cs.take n), answer.final = true) ∧
      (lifetime body inner cs).filterMap Output.answer? = body.answers inner cs := by
  refine ⟨?_, fun n => onDone_mem_calls_new body inner (cs.take n), ?_⟩
  · have hcalls := count_calls body (new inner) cs
    have hdrop := count_drop (D := D) (E := E) ((new inner).calls body cs).2
    have hnew : (new inner).tracked.done.toNat = 0 := rfl
    rw [lifetime, List.countP_append]
    omega
  · rw [lifetime, List.filterMap_append, answers_calls, drop, Output.filterMap_ofFinish,
      List.append_nil, new]

end Wrapped

end ScalableBooking.LbProxy
