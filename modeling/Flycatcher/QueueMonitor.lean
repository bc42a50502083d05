import Flycatcher.HandOver
import Flycatcher.Library.Monitors

namespace Flycatcher.QueueMonitor

open Library.Runs Library.Monitors
open Library.TextStreams (Str)
open HandOver (SafeQueue)
open Polling (PollResult)

variable {T : Type}

inductive Call (T : Type)
  | enqueue (t : T)
  | dequeue
  | dequeueWithTimeout (val : T)
  | size

inductive Local (T : Type)
  | nothing
  | value (t : T)
  | kept (val : T)
  | size (n : Nat)

def pop (x : SafeQueue T × Local T) : SafeQueue T × Local T :=
  match x.1 with
  | front :: queue => (queue, .value front)
  | [] => x

def method : Call T → Method (SafeQueue T) (Local T)
  | .enqueue t => {
      condition := fun _ => true
      timed := false
      locals := .nothing
      body := [.run fun x => (x.1.enqueue t, x.2), .notifyAll]
      owes := true }
  | .dequeue => {
      condition := fun queue => !queue.isEmpty
      timed := false
      locals := .nothing
      body := [.run pop]
      owes := false }
  | .dequeueWithTimeout val => {
      condition := fun queue => !queue.isEmpty
      timed := true
      locals := .kept val
      body := [.run pop]
      owes := false }
  | .size => {
      condition := fun _ => true
      timed := false
      locals := .nothing
      body := [.run fun x => (x.1, .size x.1.length)]
      owes := false }

abbrev Done (T : Type) := List (Nat × Call T × Local T)

def entered (done : Done T) : List T :=
  done.filterMap fun call => match call.2.1 with
    | .enqueue t => some t
    | _ => none

def taken (done : Done T) : List T :=
  done.filterMap fun call => match call.2.2 with
    | .value t => some t
    | _ => none

/-- The queue is what has entered it and has not been taken, in the same order, and
no wait without a time limit comes back with nothing. -/
structure Fifo (s : Atomic (SafeQueue T) (Local T) (Call T)) : Prop where
  order : entered s.done = taken s.done ++ s.shared
  served : ∀ w x, (w, Call.dequeue, x) ∈ s.done → ∃ t, x = .value t

variable {s t : State (SafeQueue T) (Local T) (Call T)} {tr : List (Nat × Action (Call T))}

theorem effect_dequeueWithTimeout (val : T) (queue : SafeQueue T) :
    (method (.dequeueWithTimeout val)).effect queue =
      ((queue.dequeueWithTimeout val).2,
        if queue.isEmpty then .kept val else .value (queue.dequeueWithTimeout val).1) := by
  cases queue <;> rfl

theorem fifo_append {s : Atomic (SafeQueue T) (Local T) (Call T)} (hs : Fifo s) {w : Nat} {m : Call T}
    {x : Local T} {queue : SafeQueue T}
    (horder : s.shared ++ entered [(w, m, x)] = taken [(w, m, x)] ++ queue)
    (hserved : m = .dequeue → ∃ t, x = .value t) : Fifo ⟨queue, s.done ++ [(w, m, x)]⟩ := by
  refine ⟨?_, ?_⟩
  · calc entered (s.done ++ [(w, m, x)])
        = taken s.done ++ (s.shared ++ entered [(w, m, x)]) := by
          rw [entered, List.filterMap_append, ← entered, ← entered, hs.order, List.append_assoc]
      _ = taken (s.done ++ [(w, m, x)]) ++ queue := by
          rw [horder, taken, taken, taken, List.filterMap_append, List.append_assoc]
  · intro v y hy
    rcases List.mem_append.mp hy with hy | hy
    · exact hs.served v y hy
    · cases List.mem_singleton.mp hy
      exact hserved rfl

theorem perform_fifo {s : Atomic (SafeQueue T) (Local T) (Call T)} (hs : Fifo s) (w : Nat)
    (m : Call T) (hm : m = .dequeue → s.shared ≠ []) : Fifo (s.perform method w m) := by
  cases m with
  | enqueue t => exact fifo_append hs rfl (by simp)
  | size => exact fifo_append hs (List.append_nil _) (by simp)
  | dequeue =>
      obtain ⟨front, queue, hq⟩ := List.exists_cons_of_ne_nil (hm rfl)
      rw [Atomic.perform, hq]
      exact fifo_append hs (by rw [hq]; exact List.append_nil _) fun _ => ⟨front, rfl⟩
  | dequeueWithTimeout val =>
      cases hq : s.shared with
      | nil =>
          rw [Atomic.perform, hq]
          exact fifo_append hs (by rw [hq]; rfl) (by simp)
      | cons front queue =>
          rw [Atomic.perform, hq]
          exact fifo_append hs (by rw [hq]; exact List.append_nil _) (by simp)

theorem atomicStep_fifo (s : Atomic (SafeQueue T) (Local T) (Call T)) (l : Nat × Call T)
    (t : Atomic (SafeQueue T) (Local T) (Call T)) (h : atomicStep method s l = some t) (hs : Fifo s) :
    Fifo t := by
  obtain ⟨hguard, he⟩ := Option.ite_none_right_eq_some.mp h
  cases he
  apply perform_fifo hs
  intro hm hq
  rw [hm, hq] at hguard
  cases hguard

/-- Whatever the order of the steps of any number of threads, with the wakeups
nobody asked for and the ends of the time limits, the calls come to what they come
to one after the other, and nothing is lost, taken twice or overtaken. -/
theorem calls_in_turn (hr : run (step method) (start []) tr = some t) :
    run (atomicStep method) ⟨[], []⟩ (calls t.committed.done) = some t.committed ∧
      t.done <+: t.committed.done ∧
      entered t.committed.done = taken t.committed.done ++ t.committed.shared ∧
      ∀ w x, (w, Call.dequeue, x) ∈ t.committed.done → ∃ t, x = .value t := by
  have hatomic := run_refines hr
  have hfifo := run_invariant atomicStep_fifo hatomic ⟨rfl, fun _ _ h => (by cases h)⟩
  exact ⟨hatomic, done_prefix t, hfifo.order, hfifo.served⟩

def wokenRun : List (Nat × Action (Call Nat)) :=
  [(0, .call .dequeue), (0, .acquire), (0, .test), (1, .call (.enqueue 7)), (1, .acquire),
    (1, .test), (1, .exec), (1, .exec), (1, .leave)]

theorem calls_in_turn_woken : ∃ t, run (step method) (start []) wokenRun = some t ∧
    run (atomicStep method) ⟨[], []⟩ (calls t.committed.done) = some t.committed ∧
      t.done <+: t.committed.done ∧
      entered t.committed.done = taken t.committed.done ++ t.committed.shared ∧
      ∀ w x, (w, Call.dequeue, x) ∈ t.committed.done → ∃ t, x = .value t := by
  have hr : ∃ t, run (step method) (start []) wokenRun = some t := ⟨_, rfl⟩
  obtain ⟨t, ht⟩ := hr
  exact ⟨t, ht, calls_in_turn ht⟩

theorem pop_quiet (x : SafeQueue T × Local T) : Quiet method pop x := by
  intro m hm
  cases hq : x.1 with
  | nil =>
      have hpop : pop x = x := by rw [pop, hq]
      rwa [hpop]
  | cons front queue =>
      rw [hq] at hm
      cases m <;> cases hm

theorem method_announcing (m : Call T) :
    Announcing method (method m).owes (method m).body := by
  cases m with
  | enqueue t => exact ⟨.inl rfl, trivial⟩
  | dequeue | dequeueWithTimeout val => exact ⟨.inr pop_quiet, trivial⟩
  | size => exact ⟨.inr fun _ _ h => h, trivial⟩

theorem method_owes (m : Call T) (h : (method m).owes = true) :
    Instr.notifyAll ∈ (method m).body := by
  cases m with
  | enqueue t => simp [method]
  | dequeue | dequeueWithTimeout val | size => cases h

def Waits (thread : Thread (SafeQueue T) (Local T) (Call T)) (m : Call T) : Prop :=
  (m = .dequeue ∨ ∃ val, m = .dequeueWithTimeout val) ∧
    (thread = .asleep m ∨ ∃ expired, thread = .blocked m expired)

/-- Where nobody is in a method and there is an element, no thread that waits for
one is asleep, and each can go and take it on its own. -/
theorem waiting_served (hr : run (step method) (start []) tr = some t) (hm : t.mutex = none)
    {front : T} {queue : SafeQueue T} (hq : t.shared = front :: queue) {w : Nat} {m : Call T}
    (hw : Waits (t.threads w) m) :
    t.threads w ≠ .asleep m ∧
      ∃ u, run (step method) t [(w, .acquire), (w, .test), (w, .exec), (w, .leave)] = some u ∧
        u.mutex = none ∧ u.shared = queue ∧ u.done = t.done ++ [(w, m, .value front)] := by
  obtain ⟨hwait, hthread⟩ := hw
  have hcondition : (method m).condition (front :: queue) = true := by
    rcases hwait with rfl | ⟨val, rfl⟩ <;> rfl
  have hbody : (method m).body = [.run pop] := by
    rcases hwait with rfl | ⟨val, rfl⟩ <;> rfl
  have hawake : t.threads w ≠ .asleep m := by
    intro hasleep
    rcases sleeper_waits method_announcing method_owes hr hasleep with hc | ⟨v, -, -, -, hv, -⟩
    · rw [hq, hcondition] at hc
      cases hc
    · rw [hm] at hv
      cases hv
  refine ⟨hawake, ?_⟩
  obtain ⟨expired, hblocked⟩ := hthread.resolve_left hawake
  simp [run_cons, step, threadStep, hblocked, hm, State.tested, hcondition, hq, hbody, pop,
    State.goto]

theorem waiting_served_woken : ∃ t, run (step method) (start []) wokenRun = some t ∧
    t.threads 0 ≠ .asleep .dequeue ∧
      ∃ u, run (step method) t [(0, .acquire), (0, .test), (0, .exec), (0, .leave)] = some u ∧
        u.mutex = none ∧ u.shared = [] ∧ u.done = t.done ++ [(0, .dequeue, .value 7)] := by
  have hr : ∃ t, run (step method) (start []) wokenRun = some t ∧ t.mutex = none ∧
      t.shared = [7] ∧ t.threads 0 = .blocked .dequeue false := ⟨_, rfl, rfl, rfl, rfl⟩
  obtain ⟨t, ht, hm, hq, hw⟩ := hr
  exact ⟨t, ht, waiting_served ht hm hq ⟨.inl rfl, .inr ⟨false, hw⟩⟩⟩

structure Same (s : HandOver.State)
    (a : Atomic (SafeQueue PollResult) (Local PollResult) (Call PollResult)) :
    Prop where
  queue : a.shared = s.queue
  enqueued : (entered a.done).map PollResult.get = s.enqueued
  dequeued : (taken a.done).map PollResult.get = s.dequeued

theorem append_same {s t : HandOver.State}
    {a : Atomic (SafeQueue PollResult) (Local PollResult) (Call PollResult)}
    (hs : Same s a) {w : Nat} {m : Call PollResult}
    (hqueue : ((method m).effect s.queue).1 = t.queue)
    (henqueued : s.enqueued ++ (entered [(w, m, ((method m).effect s.queue).2)]).map
      PollResult.get = t.enqueued)
    (hdequeued : s.dequeued ++ (taken [(w, m, ((method m).effect s.queue).2)]).map
      PollResult.get = t.dequeued) : Same t (a.perform method w m) := by
  refine ⟨?_, ?_, ?_⟩
  · rw [Atomic.perform, hs.queue]
    exact hqueue
  · rw [Atomic.perform, hs.queue, ← henqueued, ← hs.enqueued, entered, entered, entered,
      List.filterMap_append, List.map_append]
  · rw [Atomic.perform, hs.queue, ← hdequeued, ← hs.dequeued, taken, taken, taken,
      List.filterMap_append, List.map_append]

theorem processorStep_queue (s : HandOver.State) (w : Nat) :
    (s.processorStep w).queue = (s.queue.dequeueWithTimeout ⟨[]⟩).2 ∧
      (s.processorStep w).enqueued = s.enqueued ∧
      (s.processorStep w).dequeued = s.dequeued ++
        if s.queue.isEmpty then [] else [(s.queue.dequeueWithTimeout ⟨[]⟩).1.get] := by
  rw [HandOver.State.processorStep]
  cases hd : (s.queue.dequeueWithTimeout ⟨[]⟩).1.empty <;> simp [hd]

theorem handOver_step {s t : HandOver.State} {l : HandOver.Label} (h : HandOver.step s l = some t)
    {a : Atomic (SafeQueue PollResult) (Local PollResult) (Call PollResult)}
    (hs : Same s a) : ∃ cs b, run (atomicStep method) a cs = some b ∧ Same t b := by
  cases l with
  | poll events =>
      cases hr : s.result with
      | some r => simp [HandOver.step, hr] at h
      | none =>
          simp only [HandOver.step, hr, Option.some.injEq] at h
          subst h
          exact ⟨[], a, rfl, hs.queue, hs.enqueued, hs.dequeued⟩
  | enqueue =>
      obtain ⟨r, -, rfl⟩ := Option.map_eq_some_iff.mp h
      rw [HandOver.State.pollerStep]
      split_ifs with hr
      · exact ⟨[(0, .enqueue r)], _, rfl, append_same hs rfl rfl (List.append_nil _)⟩
      · exact ⟨[], a, rfl, hs.queue, hs.enqueued, hs.dequeued⟩
  | processor w =>
      cases h
      refine ⟨[(w + 1, .dequeueWithTimeout ⟨[]⟩)],
        a.perform method (w + 1) (.dequeueWithTimeout ⟨[]⟩), ?_, ?_⟩
      · simp [run_cons, atomicStep, method]
      · obtain ⟨hqueue, henqueued, hdequeued⟩ := processorStep_queue s w
        apply append_same hs
        · rw [effect_dequeueWithTimeout, hqueue]
        · rw [henqueued]
          exact List.append_nil _
        · rw [effect_dequeueWithTimeout, hdequeued]
          cases s.queue <;> rfl

/-- What the poller and the processors hand over, they hand over through calls of
the queue, one after the other. -/
theorem handOver_calls {dir : Str} {names : List Str}
    {tr : List HandOver.Label} {t : HandOver.State}
    (hr : run HandOver.step (HandOver.init dir names) tr = some t) :
    ∃ cs a, run (atomicStep method) ⟨[], []⟩ cs = some a ∧ Same t a := by
  apply run_invariant
    (I := fun s => ∃ cs a, run (atomicStep method) ⟨[], []⟩ cs = some a ∧ Same s a)
    ?_ hr ⟨[], _, rfl, rfl, rfl, rfl⟩
  rintro s l u h ⟨cs, a, hcs, ha⟩
  obtain ⟨cs', b, hb, hsame⟩ := handOver_step h ha
  refine ⟨cs ++ cs', b, ?_, hsame⟩
  rw [run_append, hcs]
  exact hb

end Flycatcher.QueueMonitor
