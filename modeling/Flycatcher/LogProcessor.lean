import Flycatcher.Library.Runs
import Flycatcher.Logging

namespace Flycatcher.LogProcessor

open Library.TextStreams Library.Runs HandOver Logging

inductive Point
  | created
  | entering
  | testing
  | waiting
  | dequeuing
  | logging (message : Str)
  | announcing
  | draining
  | drained (msg : Str)
  | closing
  | finished
deriving DecidableEq

inductive MainPoint
  | beforeStart
  | running
  | inJoin
  | joined
deriving DecidableEq

/-- The members of the LogProcessor, the queue, and the two threads. The calls of
the logging functions and the messages that were in the queue when the loop of
run was left are on record. -/
structure State where
  shouldRun : Bool
  queue : SafeQueue Str
  output : Output
  main : MainPoint
  thread : Point
  calls : List Call
  remaining : List Str

inductive Label
  | start
  | call (call : Call)
  | stop
  | join
  | thread (timestamp : Str)

def processorName : Str := "LogProcessor".toList

def shutdownText (size : Nat) : Str :=
  "Shutdown requested. Processing remaining ".toList ++ (toString size).toList ++
    " messages...".toList

def State.threadStep (cutoff : Level) (timestamp : Str) (s : State) : Option State :=
  match s.thread with
  | .created => none
  | .entering => some { s with shouldRun := true, thread := .testing }
  | .testing =>
      if s.shouldRun then some { s with thread := .waiting }
      else some { s with thread := .announcing, remaining := s.queue }
  | .waiting => some { s with thread := .dequeuing }
  | .dequeuing =>
      match s.queue with
      | message :: queue => some { s with queue, thread := .logging message }
      | [] => none
  | .logging message =>
      some { s with output := log message false s.output, thread := .testing }
  | .announcing =>
      some { s with
        output := logNamed cutoff timestamp (shutdownText s.queue.length) .info processorName true
          s.output
        thread := .draining }
  | .draining =>
      let (msg, queue) := s.queue.dequeueWithTimeout []
      some { s with queue, thread := if !msg.isEmpty then .drained msg else .closing }
  | .drained msg =>
      some { s with output := logAt cutoff msg .info false s.output, thread := .draining }
  | .closing =>
      some { s with
        output := logNamed cutoff timestamp "Shutting down".toList .info processorName true s.output
        thread := .finished }
  | .finished => none

def step (cutoff : Level) (s : State) : Label → Option State
  | .start =>
      if s.main = .beforeStart then some { s with main := .running, thread := .entering } else none
  | .call call =>
      if s.main = .beforeStart ∨ s.main = .running then
        some { s with queue := call.perform cutoff s.queue, calls := s.calls ++ [call] }
      else none
  | .stop =>
      if s.main = .running then some { s with shouldRun := false, main := .inJoin } else none
  | .join => if s.main = .inJoin ∧ s.thread = .finished then some { s with main := .joined } else none
  | .thread timestamp => s.threadStep cutoff timestamp

/-- The constructor leaves m_should_run as the memory has it. -/
def init (shouldRun : Bool) : State := ⟨shouldRun, [], [], .beforeStart, .created, [], []⟩

def Point.looping : Point → Bool
  | .testing | .waiting | .dequeuing | .logging _ => true
  | _ => false

def Point.leaving : Point → Bool
  | .announcing | .draining | .drained _ | .closing | .finished => true
  | _ => false

structure Ordered (s : State) : Prop where
  notStarted : s.main = .beforeStart → s.thread = .created
  running : s.main = .running → s.thread ≠ .created ∧ s.thread.leaving = false ∧
    (s.thread.looping = true → s.shouldRun = true)

def Stuck (s : State) : Prop := s.main = .inJoin ∧ s.thread = .dequeuing ∧ s.queue = []

/-- The thread comes to the test of m_should_run without having to wait. -/
def SafeToStop (s : State) : Prop :=
  match s.thread with
  | .testing | .logging _ => True
  | .waiting | .dequeuing => s.queue ≠ []
  | _ => False

structure Stopping (s : State) : Prop where
  shouldRun : s.shouldRun = false
  main : s.main = .inJoin ∨ s.main = .joined
  thread : SafeToStop s ∨ s.thread.leaving = true

theorem init_ordered (shouldRun : Bool) : Ordered (init shouldRun) :=
  ⟨fun _ => rfl, fun h => (by cases h)⟩

theorem threadStep_main {cutoff : Level} {timestamp : Str} {s t : State}
    (h : s.threadStep cutoff timestamp = some t) : t.main = s.main ∧ t.calls = s.calls := by
  rw [State.threadStep] at h
  split at h
  case h_3 => split_ifs at h <;> cases h <;> exact ⟨rfl, rfl⟩
  case h_5 =>
    split at h
    · cases h
      exact ⟨rfl, rfl⟩
    · cases h
  all_goals cases h
  all_goals exact ⟨rfl, rfl⟩

theorem threadStep_ordered {cutoff : Level} {timestamp : Str} {s t : State}
    (h : s.threadStep cutoff timestamp = some t) (hs : Ordered s) : Ordered t := by
  obtain ⟨hmain, -⟩ := threadStep_main h
  have hcreated : s.thread ≠ .created := by
    intro hc
    simp only [State.threadStep, hc] at h
    cases h
  refine ⟨fun ht => absurd (hs.notStarted (hmain ▸ ht)) hcreated, ?_⟩
  intro ht
  obtain ⟨-, hleaving, hflag⟩ := hs.running (hmain ▸ ht)
  cases hp : s.thread with
  | created => exact absurd hp hcreated
  | entering =>
      simp only [State.threadStep, hp] at h
      cases h
      exact ⟨by simp, rfl, fun _ => rfl⟩
  | testing =>
      have hflag := hflag (by rw [hp]; rfl)
      simp only [State.threadStep, hp, hflag, if_true] at h
      cases h
      exact ⟨by simp, rfl, fun _ => rfl⟩
  | waiting | logging message =>
      have hflag := hflag (by rw [hp]; rfl)
      simp only [State.threadStep, hp] at h
      cases h
      exact ⟨by simp, rfl, fun _ => hflag⟩
  | dequeuing =>
      have hflag := hflag (by rw [hp]; rfl)
      simp only [State.threadStep, hp] at h
      split at h <;> cases h
      exact ⟨by simp, rfl, fun _ => hflag⟩
  | announcing | draining | drained msg | closing | finished =>
      rw [hp] at hleaving
      cases hleaving

theorem step_ordered (cutoff : Level) (s : State) (l : Label) (t : State)
    (h : step cutoff s l = some t) (hs : Ordered s) : Ordered t := by
  cases l with
  | start =>
      simp only [step] at h
      split_ifs at h
      cases h
      exact ⟨fun h => (by cases h), fun _ => ⟨by simp, rfl, fun h => (by cases h)⟩⟩
  | call call =>
      simp only [step] at h
      split_ifs at h
      cases h
      exact ⟨hs.notStarted, hs.running⟩
  | stop =>
      simp only [step] at h
      split_ifs at h
      cases h
      exact ⟨fun h => (by cases h), fun h => (by cases h)⟩
  | join =>
      simp only [step] at h
      split_ifs at h
      cases h
      exact ⟨fun h => (by cases h), fun h => (by cases h)⟩
  | thread timestamp => exact threadStep_ordered h hs

theorem threadStep_stopping {cutoff : Level} {timestamp : Str} {s t : State}
    (h : s.threadStep cutoff timestamp = some t) (hs : Stopping s) : Stopping t := by
  obtain ⟨hmain, -⟩ := threadStep_main h
  obtain ⟨hflag, hjoin, hthread⟩ := hs
  rw [← hmain] at hjoin
  cases hp : s.thread with
  | created | entering => simp [SafeToStop, hp, Point.leaving] at hthread
  | testing =>
      simp only [State.threadStep, hp, hflag] at h
      cases h
      exact ⟨rfl, hjoin, .inr rfl⟩
  | waiting =>
      have hqueue : s.queue ≠ [] := by simpa [SafeToStop, hp, Point.leaving] using hthread
      simp only [State.threadStep, hp] at h
      cases h
      exact ⟨hflag, hjoin, .inl hqueue⟩
  | dequeuing =>
      simp only [State.threadStep, hp] at h
      split at h <;> cases h
      exact ⟨hflag, hjoin, .inl trivial⟩
  | logging message =>
      simp only [State.threadStep, hp] at h
      cases h
      exact ⟨hflag, hjoin, .inl trivial⟩
  | draining =>
      simp only [State.threadStep, hp] at h
      cases h
      refine ⟨hflag, hjoin, .inr ?_⟩
      dsimp only
      split <;> rfl
  | announcing | drained msg | closing =>
      simp only [State.threadStep, hp] at h
      cases h
      exact ⟨hflag, hjoin, .inr rfl⟩
  | finished =>
      simp only [State.threadStep, hp] at h
      cases h

theorem step_stopping (cutoff : Level) (s : State) (l : Label) (t : State)
    (h : step cutoff s l = some t) (hs : Stopping s) : Stopping t := by
  obtain ⟨hflag, hjoin, hthread⟩ := hs
  cases l with
  | start | call call | stop =>
      simp only [step] at h
      rcases hjoin with hm | hm <;> simp [hm] at h
  | join =>
      simp only [step] at h
      split_ifs at h
      cases h
      exact ⟨hflag, .inr rfl, hthread⟩
  | thread timestamp => exact threadStep_stopping h ⟨hflag, hjoin, hthread⟩

theorem stopping_not_stuck {s : State} (hs : Stopping s) : ¬Stuck s := by
  rintro ⟨-, hdequeuing, hqueue⟩
  have h := hs.thread
  simp [SafeToStop, hdequeuing, Point.leaving, hqueue] at h

/-- From the call of stop on, no schedule gets the two threads stuck or sets the
flag again exactly when the thread is past the assignment that run begins with
and comes to the test without a message that is still to be sent. -/
theorem stop_safe_iff {cutoff : Level} {shouldRun : Bool} {tr : List Label} {s t : State}
    (hr : run (step cutoff) (init shouldRun) tr = some s) (hstop : step cutoff s .stop = some t) :
    (∀ ys u, run (step cutoff) t ys = some u → ¬Stuck u ∧ u.shouldRun = false) ↔ SafeToStop s := by
  have hordered := run_invariant (step_ordered cutoff) hr (init_ordered shouldRun)
  simp only [step] at hstop
  split_ifs at hstop with hrunning
  cases hstop
  obtain ⟨hcreated, hleaving, -⟩ := hordered.running hrunning
  constructor
  · intro h
    rw [SafeToStop]
    cases hp : s.thread with
    | created => exact absurd hp hcreated
    | entering =>
        have ht := (h [.thread []] _ (by simp [run, step, State.threadStep, hp]; rfl)).2
        cases ht
    | testing | logging => trivial
    | waiting =>
        intro hqueue
        refine (h [.thread []] _ (by simp [run, step, State.threadStep, hp]; rfl)).1 ?_
        exact ⟨rfl, rfl, hqueue⟩
    | dequeuing =>
        intro hqueue
        exact (h [] _ rfl).1 ⟨rfl, hp, hqueue⟩
    | announcing | draining | drained msg | closing | finished =>
        rw [hp] at hleaving
        cases hleaving
  · intro hsafe ys u hu
    have hstopping := run_invariant (step_stopping cutoff) hu
      (⟨rfl, .inl rfl, .inl hsafe⟩ : Stopping { s with shouldRun := false, main := .inJoin })
    exact ⟨stopping_not_stuck hstopping, hstopping.shouldRun⟩

def lastMessage : Call := ⟨.error, ⟨['0'], ['m'], ['n']⟩⟩

theorem stop_safe_message : ∃ s t,
    run (step .info) (init false) [.start, .thread [], .thread [], .thread [], .call lastMessage] =
      some s ∧
    step .info s .stop = some t ∧
    ((∀ ys u, run (step .info) t ys = some u → ¬Stuck u ∧ u.shouldRun = false) ↔ SafeToStop s) := by
  have hr : ∃ s, run (step .info) (init false)
      [.start, .thread [], .thread [], .thread [], .call lastMessage] = some s := ⟨_, rfl⟩
  obtain ⟨s, hs⟩ := hr
  have ht : ∃ t, step .info s .stop = some t := by
    cases hs
    exact ⟨_, rfl⟩
  obtain ⟨t, ht⟩ := ht
  exact ⟨s, t, hs, ht, stop_safe_iff hs ht⟩

/-- The thread waits for a message when stop is called, or it has not yet begun. -/
theorem stop_unsafe :
    (∃ t, run (step .info) (init false)
        [.start, .thread [], .thread [], .thread [], .stop] = some t ∧ Stuck t) ∧
      ∃ t, run (step .info) (init false) [.start, .stop, .thread []] = some t ∧ t.main = .inJoin ∧
        t.shouldRun = true :=
  ⟨⟨_, rfl, rfl, rfl, rfl⟩, ⟨_, rfl, rfl, rfl⟩⟩

end Flycatcher.LogProcessor
