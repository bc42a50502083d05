import Flycatcher.HandOver
import Flycatcher.Library.StopFlags
import Mathlib.Logic.Function.Basic

namespace Flycatcher.Workers

open Library.Runs Library.StopFlags Polling HandOver

inductive PollerPoint
  | poll
  | enqueue (r : PollResult)

inductive ProcessorPoint
  | dequeue
  | handle (d : PollResult)

def ProcessorPoint.handles : ProcessorPoint → Bool
  | .dequeue => false
  | .handle _ => true

/-- The threads that execute AbstractWorker::run and what they share. The fields
from enqueued on record the past: what went into the queue, what which processor
took out of it, the calls of handle that have returned, and for each thread the
steps, the calls of enqueue and the calls of handle that are begun after the
shutdown has been requested. -/
structure State where
  shutdownRequested : Bool
  poller : Position PollerPoint
  processors : Nat → Position ProcessorPoint
  queue : SafeQueue PollResult
  enqueued : List PollResult
  taken : List (Nat × PollResult)
  returned : List (Nat × PollResult)
  latePolls : Nat
  lateEnqueues : Nat
  lateSteps : Nat → Nat
  lateHandles : Nat → Nat

inductive PollerAction
  | test
  | wake
  | poll (r : PollResult)
  | enqueue

inductive ProcessorAction
  | test
  | wake
  | dequeue
  | handleReturns

inductive Label
  | signal
  | poller (action : PollerAction)
  | processor (w : Nat) (action : ProcessorAction)

def State.setProcessor (s : State) (w : Nat) (position : Position ProcessorPoint) : State :=
  { s with processors := Function.update s.processors w position }

def State.pollerStep (s : State) : PollerAction → Option State
  | .test => (s.poller.test s.shutdownRequested).map fun poller => { s with poller }
  | .wake =>
      (s.poller.wake .poll).map fun poller =>
        { s with poller, latePolls := tally s.shutdownRequested s.latePolls }
  | .poll r =>
      match s.poller with
      | .working .poll => some { s with poller := .working (.enqueue r) }
      | _ => none
  | .enqueue =>
      match s.poller with
      | .working (.enqueue r) =>
          if !r.empty then
            some { s with
              poller := .head
              queue := s.queue.enqueue r
              enqueued := s.enqueued ++ [r]
              lateEnqueues := tally s.shutdownRequested s.lateEnqueues }
          else some { s with poller := .head }
      | _ => none

def State.dequeue (s : State) (w : Nat) : State :=
  let (d, queue) := s.queue.dequeueWithTimeout ⟨[]⟩
  let out := if s.queue.isEmpty then [] else [(w, d)]
  let s := { s with queue, taken := s.taken ++ out }
  if !d.empty then
    { s.setProcessor w (.working (.handle d)) with
      lateHandles := Function.update s.lateHandles w (tally s.shutdownRequested (s.lateHandles w)) }
  else s.setProcessor w .head

def State.processorStep (s : State) (w : Nat) : ProcessorAction → Option State
  | .test => ((s.processors w).test s.shutdownRequested).map (s.setProcessor w)
  | .wake =>
      ((s.processors w).wake .dequeue).map fun position =>
        { s.setProcessor w position with
          lateSteps := Function.update s.lateSteps w (tally s.shutdownRequested (s.lateSteps w)) }
  | .dequeue =>
      match s.processors w with
      | .working .dequeue => some (s.dequeue w)
      | _ => none
  | .handleReturns =>
      match s.processors w with
      | .working (.handle d) =>
          some { s.setProcessor w .head with returned := s.returned ++ [(w, d)] }
      | _ => none

def step (n : Nat) (s : State) : Label → Option State
  | .signal => some { s with shutdownRequested := true }
  | .poller action => s.pollerStep action
  | .processor w action => if w < n then s.processorStep w action else none

def init : State :=
  ⟨false, .head, fun _ => .head, [], [], [], [], 0, 0, fun _ => 0, fun _ => 0⟩

def State.allLeft (s : State) (n : Nat) : Prop := s.poller = .left ∧ ∀ w < n, s.processors w = .left

def ofProcessor (w : Nat) (results : List (Nat × PollResult)) : List PollResult :=
  (results.filter fun result => result.1 = w).map Prod.snd

def inHand : Position ProcessorPoint → List PollResult
  | .working (.handle d) => [d]
  | _ => []

structure Accounted (n : Nat) (s : State) : Prop where
  nonempty : ∀ r ∈ s.queue, r.empty = false
  order : s.enqueued = s.taken.map Prod.snd ++ s.queue
  hands : ∀ w, ofProcessor w s.taken = ofProcessor w s.returned ++ inHand (s.processors w)
  idle : ∀ w, n ≤ w → s.processors w = .head

structure Bounded (s : State) : Prop where
  poller : Budget (fun _ => false) s.shutdownRequested s.poller s.latePolls s.lateEnqueues
  processors : ∀ w, Budget ProcessorPoint.handles s.shutdownRequested (s.processors w)
    (s.lateSteps w) (s.lateHandles w)

theorem ofProcessor_append (w : Nat) (xs ys : List (Nat × PollResult)) :
    ofProcessor w (xs ++ ys) = ofProcessor w xs ++ ofProcessor w ys := by
  simp [ofProcessor]

theorem ofProcessor_own (w : Nat) (d : PollResult) : ofProcessor w [(w, d)] = [d] := by
  simp [ofProcessor]

theorem ofProcessor_other {w v : Nat} (h : v ≠ w) (d : PollResult) : ofProcessor w [(v, d)] = [] := by
  simp [ofProcessor, h]

theorem init_bounded : Bounded init := ⟨Budget.start _, fun _ => Budget.start _⟩

theorem init_accounted (n : Nat) : Accounted n init :=
  ⟨fun _ h => (by cases h), rfl, fun _ => rfl, fun _ _ => rfl⟩

theorem pollerStep_bounded {s t : State} {action : PollerAction}
    (h : s.pollerStep action = some t) (hs : Bounded s) : Bounded t := by
  cases action with
  | test =>
      obtain ⟨poller, ht, rfl⟩ := Option.map_eq_some_iff.mp h
      exact ⟨hs.poller.test ht, hs.processors⟩
  | wake =>
      obtain ⟨poller, hw, rfl⟩ := Option.map_eq_some_iff.mp h
      exact ⟨hs.poller.wake hw, hs.processors⟩
  | poll r =>
      rw [State.pollerStep] at h
      split at h
      next hp =>
          cases h
          exact ⟨(hp ▸ hs.poller).work rfl, hs.processors⟩
      next => cases h
  | enqueue =>
      rw [State.pollerStep] at h
      split at h
      next r hp =>
          have hpoller := hp ▸ hs.poller
          split_ifs at h
          · cases h
            exact ⟨hpoller.actLast rfl, hs.processors⟩
          · cases h
            exact ⟨hpoller.finish, hs.processors⟩
      next => cases h

theorem setProcessor_bounded {s : State} (hs : Bounded s) {w : Nat}
    {position : Position ProcessorPoint}
    (hw : Budget ProcessorPoint.handles s.shutdownRequested position (s.lateSteps w)
      (s.lateHandles w)) : Bounded (s.setProcessor w position) := by
  have h := budgets_update hs.processors w hw
  simp only [Function.update_eq_self] at h
  exact ⟨hs.poller, h⟩

theorem dequeue_bounded {s : State} (hs : Bounded s) {w : Nat}
    (hw : s.processors w = .working .dequeue) : Bounded (s.dequeue w) := by
  have hprocessor := hw ▸ hs.processors w
  rw [State.dequeue]
  cases hd : (s.queue.dequeueWithTimeout ⟨[]⟩).1.empty with
  | true =>
      simp only [hd, Bool.not_true, Bool.false_eq_true, if_false]
      exact @setProcessor_bounded { s with
        queue := (s.queue.dequeueWithTimeout ⟨[]⟩).2
        taken := s.taken ++ if s.queue.isEmpty then [] else [(w, (s.queue.dequeueWithTimeout ⟨[]⟩).1)] }
        ⟨hs.poller, hs.processors⟩ w .head hprocessor.finish
  | false =>
      simp only [hd, Bool.not_false, if_true]
      have h := budgets_update hs.processors w (@Budget.act _ _ _ _
        (.handle (s.queue.dequeueWithTimeout ⟨[]⟩).1) _ _ hprocessor rfl rfl)
      simp only [Function.update_eq_self] at h
      exact ⟨hs.poller, h⟩

theorem processorStep_bounded {s t : State} {w : Nat} {action : ProcessorAction}
    (h : s.processorStep w action = some t) (hs : Bounded s) : Bounded t := by
  cases action with
  | test =>
      obtain ⟨position, ht, rfl⟩ := Option.map_eq_some_iff.mp h
      exact setProcessor_bounded hs ((hs.processors w).test ht)
  | wake =>
      obtain ⟨position, hw, rfl⟩ := Option.map_eq_some_iff.mp h
      have h := budgets_update hs.processors w ((hs.processors w).wake hw)
      simp only [Function.update_eq_self] at h
      exact ⟨hs.poller, h⟩
  | dequeue =>
      rw [State.processorStep] at h
      split at h
      next hp =>
          cases h
          exact dequeue_bounded hs hp
      next => cases h
  | handleReturns =>
      rw [State.processorStep] at h
      split at h
      next d hp =>
          cases h
          have hprocessor := hp ▸ hs.processors w
          have hset := @setProcessor_bounded s hs w .head hprocessor.finish
          exact ⟨hset.poller, hset.processors⟩
      next => cases h

theorem step_bounded (n : Nat) (s : State) (l : Label) (t : State) (h : step n s l = some t)
    (hs : Bounded s) : Bounded t := by
  cases l with
  | signal =>
      cases h
      exact ⟨hs.poller.set, fun w => (hs.processors w).set⟩
  | poller action => exact pollerStep_bounded h hs
  | processor w action =>
      rw [step] at h
      split_ifs at h
      exact processorStep_bounded h hs

theorem setProcessor_processors (s : State) (w : Nat) (position : Position ProcessorPoint) :
    (s.setProcessor w position).processors w = position ∧
      ∀ v, v ≠ w → (s.setProcessor w position).processors v = s.processors v := by
  simp +contextual [State.setProcessor, Function.update_of_ne]

theorem accounted_moved {n : Nat} {s t : State} (hs : Accounted n s) {w : Nat} (hn : w < n)
    (hnonempty : ∀ r ∈ t.queue, r.empty = false)
    (horder : t.enqueued = t.taken.map Prod.snd ++ t.queue)
    (hself : ofProcessor w t.taken = ofProcessor w t.returned ++ inHand (t.processors w))
    (hothers : ∀ v, v ≠ w → t.processors v = s.processors v ∧
      ofProcessor v t.taken = ofProcessor v s.taken ∧
      ofProcessor v t.returned = ofProcessor v s.returned) : Accounted n t := by
  refine ⟨hnonempty, horder, ?_, ?_⟩
  · intro v
    by_cases hv : v = w
    · subst hv
      exact hself
    · obtain ⟨hprocessor, htaken, hreturned⟩ := hothers v hv
      rw [hprocessor, htaken, hreturned]
      exact hs.hands v
  · intro v hle
    have hv : v ≠ w := by omega
    rw [(hothers v hv).1]
    exact hs.idle v hle

theorem setProcessor_accounted {n : Nat} {s : State} (hs : Accounted n s) {w : Nat} (hn : w < n)
    {position : Position ProcessorPoint} (hw : inHand position = inHand (s.processors w)) :
    Accounted n (s.setProcessor w position) := by
  obtain ⟨hself, hothers⟩ := setProcessor_processors s w position
  refine accounted_moved hs hn hs.nonempty hs.order ?_ fun v hv => ⟨hothers v hv, rfl, rfl⟩
  rw [hself, hw]
  exact hs.hands w

theorem pollerStep_accounted {n : Nat} {s t : State} {action : PollerAction}
    (h : s.pollerStep action = some t) (hs : Accounted n s) : Accounted n t := by
  cases action with
  | test | wake =>
      obtain ⟨poller, -, rfl⟩ := Option.map_eq_some_iff.mp h
      exact ⟨hs.nonempty, hs.order, hs.hands, hs.idle⟩
  | poll r =>
      rw [State.pollerStep] at h
      split at h
      next =>
          cases h
          exact ⟨hs.nonempty, hs.order, hs.hands, hs.idle⟩
      next => cases h
  | enqueue =>
      rw [State.pollerStep] at h
      split at h
      next r hp =>
          split_ifs at h with hr
          · cases h
            refine ⟨?_, ?_, hs.hands, hs.idle⟩
            · intro q hq
              rcases List.mem_append.mp hq with hq | hq
              · exact hs.nonempty q hq
              · rw [List.mem_singleton.mp hq]
                simpa using hr
            · rw [hs.order, SafeQueue.enqueue, List.append_assoc]
          · cases h
            exact ⟨hs.nonempty, hs.order, hs.hands, hs.idle⟩
      next => cases h

theorem dequeue_nil {s : State} (w : Nat) (hq : s.queue = []) :
    s.dequeue w = s.setProcessor w .head := by
  obtain ⟨_, _, _, queue⟩ := s
  obtain rfl : queue = [] := hq
  simp [State.dequeue, SafeQueue.dequeueWithTimeout, PollResult.empty]

theorem dequeue_cons {s : State} (w : Nat) {d : PollResult} {queue : List PollResult}
    (hq : s.queue = d :: queue) (hd : d.empty = false) :
    s.dequeue w = { s.setProcessor w (.working (.handle d)) with
      queue
      taken := s.taken ++ [(w, d)]
      lateHandles :=
        Function.update s.lateHandles w (tally s.shutdownRequested (s.lateHandles w)) } := by
  simp [State.dequeue, SafeQueue.dequeueWithTimeout, hq, hd, State.setProcessor]

theorem dequeue_accounted {n : Nat} {s : State} (hs : Accounted n s) {w : Nat} (hn : w < n)
    (hw : s.processors w = .working .dequeue) : Accounted n (s.dequeue w) := by
  have hhand : inHand (s.processors w) = [] := by rw [hw]; rfl
  cases hq : s.queue with
  | nil =>
      rw [dequeue_nil w hq]
      exact setProcessor_accounted hs hn hhand.symm
  | cons d queue =>
      have hnonempty : ∀ r ∈ d :: queue, r.empty = false := hq ▸ hs.nonempty
      obtain ⟨hd, hnonempty⟩ := List.forall_mem_cons.mp hnonempty
      obtain ⟨hself, hothers⟩ := setProcessor_processors s w (.working (.handle d))
      have horder := hs.order
      have hhands := hs.hands w
      rw [hq] at horder
      rw [hhand, List.append_nil] at hhands
      rw [dequeue_cons w hq hd]
      refine accounted_moved hs hn hnonempty ?_ ?_ ?_
      · simp only [List.map_append, List.map_cons, List.map_nil, List.append_assoc]
        exact horder
      · simp only [ofProcessor_append, ofProcessor_own, hself, hhands]
        rfl
      · intro v hv
        refine ⟨hothers v hv, ?_, rfl⟩
        rw [ofProcessor_append, ofProcessor_other (Ne.symm hv), List.append_nil]

theorem handleReturns_accounted {n : Nat} {s : State} (hs : Accounted n s) {w : Nat} (hn : w < n)
    {d : PollResult} (hw : s.processors w = .working (.handle d)) :
    Accounted n { s.setProcessor w .head with returned := s.returned ++ [(w, d)] } := by
  obtain ⟨hself, hothers⟩ := setProcessor_processors s w .head
  have hhands := hs.hands w
  rw [hw] at hhands
  refine accounted_moved hs hn hs.nonempty hs.order ?_ ?_
  · simp only [ofProcessor_append, ofProcessor_own, hself]
    exact hhands.trans (List.append_nil _).symm
  · intro v hv
    refine ⟨hothers v hv, rfl, ?_⟩
    rw [ofProcessor_append, ofProcessor_other (Ne.symm hv), List.append_nil]

theorem test_inHand {stop : Bool} {position position' : Position ProcessorPoint}
    (h : position.test stop = some position') : inHand position' = inHand position := by
  cases position with
  | head =>
      cases h
      cases stop <;> rfl
  | waiting | working | left => cases h

theorem wake_inHand {position position' : Position ProcessorPoint}
    (h : position.wake .dequeue = some position') : inHand position' = inHand position := by
  cases position with
  | waiting =>
      cases h
      rfl
  | head | working | left => cases h

theorem processorStep_accounted {n : Nat} {s t : State} {w : Nat} {action : ProcessorAction}
    (hn : w < n) (h : s.processorStep w action = some t) (hs : Accounted n s) : Accounted n t := by
  cases action with
  | test =>
      obtain ⟨position, ht, rfl⟩ := Option.map_eq_some_iff.mp h
      exact setProcessor_accounted hs hn (test_inHand ht)
  | wake =>
      obtain ⟨position, hw, rfl⟩ := Option.map_eq_some_iff.mp h
      have hset := setProcessor_accounted hs hn (wake_inHand hw)
      exact ⟨hset.nonempty, hset.order, hset.hands, hset.idle⟩
  | dequeue =>
      rw [State.processorStep] at h
      split at h
      next hp =>
          cases h
          exact dequeue_accounted hs hn hp
      next => cases h
  | handleReturns =>
      rw [State.processorStep] at h
      split at h
      next d hp =>
          cases h
          exact handleReturns_accounted hs hn hp
      next => cases h

theorem step_accounted (n : Nat) (s : State) (l : Label) (t : State) (h : step n s l = some t)
    (hs : Accounted n s) : Accounted n t := by
  cases l with
  | signal =>
      cases h
      exact ⟨hs.nonempty, hs.order, hs.hands, hs.idle⟩
  | poller action => exact pollerStep_accounted h hs
  | processor w action =>
      rw [step] at h
      split_ifs at h with hn
      exact processorStep_accounted hn h hs

theorem count_ofProcessor [DecidableEq PollResult] (w : Nat) (d : PollResult)
    (results : List (Nat × PollResult)) :
    (ofProcessor w results).count d = results.count (w, d) := by
  induction results with
  | nil => rfl
  | cons result results ih =>
      obtain ⟨v, r⟩ := result
      rw [← List.singleton_append, ofProcessor_append, List.count_append, List.count_append, ih]
      congr 1
      by_cases hv : v = w
      · subst hv
        simp [ofProcessor_own, List.count_singleton]
      · simp [ofProcessor_other hv, hv]

theorem perm_of_ofProcessor {xs ys : List (Nat × PollResult)}
    (h : ∀ w, ofProcessor w xs = ofProcessor w ys) : xs.Perm ys := by
  classical
  rw [List.perm_iff_count]
  rintro ⟨w, d⟩
  rw [← count_ofProcessor, ← count_ofProcessor, h w]

theorem allLeft_accounted {n : Nat} {s : State} (hs : Accounted n s) (h : s.allLeft n) :
    s.taken.Perm s.returned := by
  apply perm_of_ofProcessor
  intro w
  have hhand : inHand (s.processors w) = [] := by
    by_cases hw : w < n
    · rw [h.2 w hw]
      rfl
    · rw [hs.idle w (by omega)]
      rfl
  rw [hs.hands w, hhand, List.append_nil]

/-- Once the shutdown is requested no thread begins more than one step, and when
all of them have left what came out of the queue is what has been handled to the
end. -/
theorem shutdown_bounded {n : Nat} {tr : List Label} {t : State}
    (hr : run (step n) init tr = some t) :
    (t.latePolls ≤ 1 ∧ t.lateEnqueues ≤ 1 ∧ ∀ w, t.lateSteps w ≤ 1 ∧ t.lateHandles w ≤ 1) ∧
      (t.allLeft n → t.taken.Perm t.returned ∧ t.enqueued = t.taken.map Prod.snd ++ t.queue) := by
  have hbounded := run_invariant (step_bounded n) hr init_bounded
  have haccounted := run_invariant (step_accounted n) hr (init_accounted n)
  refine ⟨⟨hbounded.poller.le.1, hbounded.poller.le.2, fun w => (hbounded.processors w).le⟩, ?_⟩
  intro hleft
  exact ⟨allLeft_accounted haccounted hleft, haccounted.order⟩

def lateRun : List Label :=
  [.poller .test, .processor 0 .test, .signal, .poller .wake, .poller (.poll ⟨['d', '/', 'a']⟩),
    .poller .enqueue, .processor 0 .wake, .processor 0 .dequeue, .poller .test,
    .processor 0 .handleReturns, .processor 0 .test]

theorem shutdown_bounded_late : ∃ t, run (step 1) init lateRun = some t ∧
    (t.latePolls ≤ 1 ∧ t.lateEnqueues ≤ 1 ∧ ∀ w, t.lateSteps w ≤ 1 ∧ t.lateHandles w ≤ 1) ∧
      (t.allLeft 1 → t.taken.Perm t.returned ∧ t.enqueued = t.taken.map Prod.snd ++ t.queue) := by
  have hr : ∃ t, run (step 1) init lateRun = some t := ⟨_, rfl⟩
  obtain ⟨t, ht⟩ := hr
  exact ⟨t, ht, shutdown_bounded ht⟩

end Flycatcher.Workers
