import Flycatcher.Workers
import Mathlib.Algebra.Order.BigOperators.Group.Finset

namespace Flycatcher.Shutdown

open Library.Runs Library.StopFlags Polling HandOver Workers

inductive KafkaPoint
  | poll
  | sleep

def KafkaPoint.polled : KafkaPoint → Bool
  | .poll => false
  | .sleep => true

structure State where
  workers : Workers.State
  kafkaPoller : Position KafkaPoint
  lateTurns : Nat
  latePolls : Nat
  joined : Nat

inductive KafkaAction
  | test
  | wake
  | poll
  | wakeUp

inductive Label
  | worker (l : Workers.Label)
  | kafkaPoller (action : KafkaAction)
  | join

def State.kafkaStep (s : State) : KafkaAction → Option State
  | .test =>
      (s.kafkaPoller.test s.workers.shutdownRequested).map fun kafkaPoller => { s with kafkaPoller }
  | .wake =>
      (s.kafkaPoller.wake .poll).map fun kafkaPoller =>
        { s with kafkaPoller, lateTurns := tally s.workers.shutdownRequested s.lateTurns }
  | .poll =>
      match s.kafkaPoller with
      | .working .poll =>
          some { s with
            kafkaPoller := .working .sleep
            latePolls := tally s.workers.shutdownRequested s.latePolls }
      | _ => none
  | .wakeUp =>
      match s.kafkaPoller with
      | .working .sleep => some { s with kafkaPoller := .head }
      | _ => none

def hasLeft {α : Type} : Position α → Bool
  | .left => true
  | _ => false

def State.canJoin (n : Nat) (s : State) : Bool :=
  match s.joined with
  | 0 => hasLeft s.workers.poller
  | k + 1 => if k < n then hasLeft (s.workers.processors k) else k = n && hasLeft s.kafkaPoller

/-- Connector::start from the joins on, and what main does up to the stop of the
LogProcessor, with so many processors. -/
def step (n : Nat) (s : State) : Label → Option State
  | .worker l => (Workers.step n s.workers l).map fun workers => { s with workers }
  | .kafkaPoller action => s.kafkaStep action
  | .join => if s.canJoin n then some { s with joined := s.joined + 1 } else none

def init : State := ⟨Workers.init, .head, 0, 0, 0⟩

def Label.moves : Label → Bool
  | .worker .signal => false
  | _ => true

/-- How many steps a thread is at most away from its end once the flag is set. -/
def weight {α : Type} (left : α → Nat) : Position α → Nat
  | .left => 0
  | .head => 1
  | .working point => left point + 1
  | .waiting => 4

def pollerLeft : PollerPoint → Nat
  | .enqueue _ => 1
  | .poll => 2

def processorLeft : ProcessorPoint → Nat
  | .handle _ => 1
  | .dequeue => 2

def kafkaLeft : KafkaPoint → Nat
  | .sleep => 1
  | .poll => 2

def workersRemaining (n : Nat) (s : Workers.State) : Nat :=
  weight pollerLeft s.poller + (Finset.range n).sum fun w => weight processorLeft (s.processors w)

def State.remaining (n : Nat) (s : State) : Nat :=
  workersRemaining n s.workers + weight kafkaLeft s.kafkaPoller + (n + 2 - s.joined)

structure Joined (n : Nat) (s : State) : Prop where
  poller : 0 < s.joined → s.workers.poller = .left
  processors : ∀ w < n, w + 1 < s.joined → s.workers.processors w = .left
  kafkaPoller : n + 1 < s.joined → s.kafkaPoller = .left
  le : s.joined ≤ n + 2

variable {α : Type} {left : α → Nat} {position position' : Position α} {n : Nat}

theorem hasLeft_iff : hasLeft position = true ↔ position = .left := by
  cases position <;> simp [hasLeft]

theorem test_weight (h : position.test true = some position') :
    weight left position' < weight left position := by
  cases position with
  | head =>
      cases h
      exact Nat.zero_lt_one
  | waiting | working | left => cases h

theorem wake_weight {first : α} (hleft : left first ≤ 2)
    (h : position.wake first = some position') : weight left position' < weight left position := by
  cases position with
  | waiting =>
      cases h
      exact Nat.lt_of_le_of_lt (Nat.succ_le_succ hleft) (Nat.lt_succ_self 3)
  | head | working | left => cases h

theorem test_ne_left {stop : Bool} (h : position.test stop = some position') :
    position ≠ .left := by
  rintro rfl
  cases h

theorem wake_ne_left {first : α} (h : position.wake first = some position') :
    position ≠ .left := by
  rintro rfl
  cases h

def Nearer (stop : Bool) (left : α → Nat) (position position' : Position α) : Prop :=
  position ≠ .left ∧ (stop = true → weight left position' < weight left position)

theorem nearer_test {stop : Bool} (h : position.test stop = some position') :
    Nearer stop left position position' := by
  refine ⟨test_ne_left h, ?_⟩
  rintro rfl
  exact test_weight h

theorem nearer_wake {stop : Bool} {first : α} (hleft : left first ≤ 2)
    (h : position.wake first = some position') : Nearer stop left position position' :=
  ⟨wake_ne_left h, fun _ => wake_weight hleft h⟩

theorem nearer_work {stop : Bool} {point : α} (h : weight left position' ≤ left point) :
    Nearer stop left (.working point) position' :=
  ⟨by simp, fun _ => Nat.lt_succ_of_le h⟩

theorem pollerStep_nearer {s t : Workers.State} {action : PollerAction}
    (h : s.pollerStep action = some t) :
    Nearer s.shutdownRequested pollerLeft s.poller t.poller ∧ t.processors = s.processors ∧
      t.shutdownRequested = s.shutdownRequested := by
  cases action with
  | test =>
      obtain ⟨poller, ht, rfl⟩ := Option.map_eq_some_iff.mp h
      exact ⟨nearer_test ht, rfl, rfl⟩
  | wake =>
      obtain ⟨poller, hw, rfl⟩ := Option.map_eq_some_iff.mp h
      exact ⟨nearer_wake (Nat.le_of_eq rfl) hw, rfl, rfl⟩
  | poll r =>
      rw [Workers.State.pollerStep] at h
      split at h
      next hp =>
          cases h
          rw [hp]
          exact ⟨nearer_work (Nat.le_of_eq rfl), rfl, rfl⟩
      next => cases h
  | enqueue =>
      rw [Workers.State.pollerStep] at h
      split at h
      next r hp =>
          rw [hp]
          split_ifs at h
          all_goals
            cases h
            exact ⟨nearer_work (Nat.le_of_eq rfl), rfl, rfl⟩
      next => cases h

theorem dequeue_moved (s : Workers.State) (w : Nat) :
    ∃ position, (s.dequeue w).processors = Function.update s.processors w position ∧
      weight processorLeft position ≤ 2 ∧ (s.dequeue w).poller = s.poller ∧
      (s.dequeue w).shutdownRequested = s.shutdownRequested := by
  rw [Workers.State.dequeue]
  cases hd : (s.queue.dequeueWithTimeout ⟨[]⟩).1.empty with
  | true =>
      refine ⟨.head, ?_, Nat.le_succ 1, ?_, ?_⟩
      all_goals simp [hd, Workers.State.setProcessor]
  | false =>
      refine ⟨.working (.handle (s.queue.dequeueWithTimeout ⟨[]⟩).1), ?_, Nat.le_refl 2,
        ?_, ?_⟩
      all_goals simp [hd, Workers.State.setProcessor]

theorem processorStep_nearer {s t : Workers.State} {w : Nat} {action : ProcessorAction}
    (h : s.processorStep w action = some t) :
    ∃ position, t.processors = Function.update s.processors w position ∧
      Nearer s.shutdownRequested processorLeft (s.processors w) position ∧
      t.poller = s.poller ∧ t.shutdownRequested = s.shutdownRequested := by
  cases action with
  | test =>
      obtain ⟨position, ht, rfl⟩ := Option.map_eq_some_iff.mp h
      exact ⟨position, rfl, nearer_test ht, rfl, rfl⟩
  | wake =>
      obtain ⟨position, hw, rfl⟩ := Option.map_eq_some_iff.mp h
      exact ⟨position, rfl, nearer_wake (Nat.le_of_eq rfl) hw, rfl, rfl⟩
  | dequeue =>
      rw [Workers.State.processorStep] at h
      split at h
      next hp =>
          cases h
          obtain ⟨position, hprocessors, hle, hpoller, hflag⟩ := dequeue_moved s w
          rw [hp]
          exact ⟨position, hprocessors, nearer_work hle, hpoller, hflag⟩
      next => cases h
  | handleReturns =>
      rw [Workers.State.processorStep] at h
      split at h
      next d hp =>
          cases h
          rw [hp]
          exact ⟨.head, rfl, nearer_work (Nat.le_of_eq rfl), rfl, rfl⟩
      next => cases h

theorem sum_update_lt {processors : Nat → Position ProcessorPoint} {w : Nat} (hw : w < n)
    {position : Position ProcessorPoint}
    (h : weight processorLeft position < weight processorLeft (processors w)) :
    ((Finset.range n).sum fun v => weight processorLeft (Function.update processors w position v)) <
      (Finset.range n).sum fun v => weight processorLeft (processors v) := by
  apply Finset.sum_lt_sum
  · intro v _
    by_cases hv : v = w
    · rw [hv, Function.update_self]
      exact Nat.le_of_lt h
    · rw [Function.update_of_ne hv]
  · refine ⟨w, Finset.mem_range.mpr hw, ?_⟩
    rw [Function.update_self]
    exact h

theorem worker_remaining {s t : Workers.State} {l : Workers.Label}
    (hstop : s.shutdownRequested = true) (h : Workers.step n s l = some t) :
    t.shutdownRequested = true ∧
      workersRemaining n t + (Label.worker l).moves.toNat ≤ workersRemaining n s := by
  cases l with
  | signal =>
      cases h
      exact ⟨rfl, Nat.le_refl _⟩
  | poller action =>
      obtain ⟨⟨-, hlt⟩, hprocessors, hflag⟩ := pollerStep_nearer h
      have hlt := hlt hstop
      refine ⟨hflag.trans hstop, ?_⟩
      rw [workersRemaining, workersRemaining, hprocessors]
      change _ + 1 ≤ _
      omega
  | processor w action =>
      obtain ⟨hw, h⟩ := Option.ite_none_right_eq_some.mp h
      obtain ⟨position, hprocessors, ⟨-, hlt⟩, hpoller, hflag⟩ := processorStep_nearer h
      refine ⟨hflag.trans hstop, ?_⟩
      have hsum := sum_update_lt hw (hlt hstop)
      rw [workersRemaining, workersRemaining, hprocessors, hpoller]
      change _ + 1 ≤ _
      omega

theorem worker_left {s t : Workers.State} {l : Workers.Label} (h : Workers.step n s l = some t) :
    (s.poller = .left → t.poller = .left) ∧
      ∀ w, s.processors w = .left → t.processors w = .left := by
  cases l with
  | signal =>
      cases h
      exact ⟨id, fun _ => id⟩
  | poller action =>
      obtain ⟨⟨hne, -⟩, hprocessors, -⟩ := pollerStep_nearer h
      refine ⟨fun hleft => absurd hleft hne, fun w hw => ?_⟩
      rw [hprocessors]
      exact hw
  | processor v action =>
      obtain ⟨-, h⟩ := Option.ite_none_right_eq_some.mp h
      obtain ⟨position, hprocessors, ⟨hne, -⟩, hpoller, -⟩ := processorStep_nearer h
      refine ⟨fun hleft => hpoller.trans hleft, fun w hw => ?_⟩
      rw [hprocessors, Function.update_of_ne]
      · exact hw
      · rintro rfl
        exact hne hw

theorem kafkaStep_nearer {s t : State} {action : KafkaAction} (h : s.kafkaStep action = some t) :
    t.workers = s.workers ∧ t.joined = s.joined ∧
      Nearer s.workers.shutdownRequested kafkaLeft s.kafkaPoller t.kafkaPoller := by
  cases action with
  | test =>
      obtain ⟨kafkaPoller, ht, rfl⟩ := Option.map_eq_some_iff.mp h
      exact ⟨rfl, rfl, nearer_test ht⟩
  | wake =>
      obtain ⟨kafkaPoller, hw, rfl⟩ := Option.map_eq_some_iff.mp h
      exact ⟨rfl, rfl, nearer_wake (Nat.le_of_eq rfl) hw⟩
  | poll =>
      rw [State.kafkaStep] at h
      split at h
      next hp =>
          cases h
          rw [hp]
          exact ⟨rfl, rfl, nearer_work (Nat.le_of_eq rfl)⟩
      next => cases h
  | wakeUp =>
      rw [State.kafkaStep] at h
      split at h
      next hp =>
          cases h
          rw [hp]
          exact ⟨rfl, rfl, nearer_work (Nat.le_of_eq rfl)⟩
      next => cases h

theorem kafkaStep_budget {s t : State} {action : KafkaAction} (h : s.kafkaStep action = some t)
    (hs : Budget KafkaPoint.polled s.workers.shutdownRequested s.kafkaPoller s.lateTurns
      s.latePolls) :
    Budget KafkaPoint.polled s.workers.shutdownRequested t.kafkaPoller t.lateTurns
      t.latePolls := by
  cases action with
  | test =>
      obtain ⟨kafkaPoller, ht, rfl⟩ := Option.map_eq_some_iff.mp h
      exact hs.test ht
  | wake =>
      obtain ⟨kafkaPoller, hw, rfl⟩ := Option.map_eq_some_iff.mp h
      exact hs.wake hw
  | poll =>
      rw [State.kafkaStep] at h
      split at h
      next hp =>
          cases h
          exact (hp ▸ hs).act rfl rfl
      next => cases h
  | wakeUp =>
      rw [State.kafkaStep] at h
      split at h
      next hp =>
          cases h
          exact (hp ▸ hs).finish
      next => cases h

theorem canJoin_cases {s : State} (h : s.canJoin n = true) :
    (s.joined = 0 ∧ s.workers.poller = .left) ∨
      (∃ w < n, s.joined = w + 1 ∧ s.workers.processors w = .left) ∨
      (s.joined = n + 1 ∧ s.kafkaPoller = .left) := by
  rw [State.canJoin] at h
  split at h
  next hj => exact .inl ⟨hj, hasLeft_iff.mp h⟩
  next k hj =>
    split_ifs at h with hk
    · exact .inr (.inl ⟨k, hk, hj, hasLeft_iff.mp h⟩)
    · rw [Bool.and_eq_true, decide_eq_true_iff] at h
      obtain ⟨rfl, hleft⟩ := h
      exact .inr (.inr ⟨hj, hasLeft_iff.mp hleft⟩)

theorem join_joined {s : State} (hs : Joined n s) (h : s.canJoin n = true) :
    Joined n { s with joined := s.joined + 1 } := by
  have hcases := canJoin_cases h
  refine ⟨?_, ?_, ?_, ?_⟩
  · intro _
    rcases hcases with ⟨-, hleft⟩ | ⟨w, -, hj, -⟩ | ⟨hj, -⟩
    · exact hleft
    · exact hs.poller (by omega)
    · exact hs.poller (by omega)
  · intro w hw hlt
    change w + 1 < s.joined + 1 at hlt
    rcases hcases with ⟨hj, -⟩ | ⟨v, -, hj, hleft⟩ | ⟨hj, -⟩
    · omega
    · by_cases hvw : w = v
      · rw [hvw]
        exact hleft
      · exact hs.processors w hw (by omega)
    · exact hs.processors w hw (by omega)
  · intro hlt
    change n + 1 < s.joined + 1 at hlt
    rcases hcases with ⟨hj, -⟩ | ⟨v, hv, hj, -⟩ | ⟨-, hleft⟩
    · omega
    · omega
    · exact hleft
  · change s.joined + 1 ≤ n + 2
    rcases hcases with ⟨hj, -⟩ | ⟨v, hv, hj, -⟩ | ⟨hj, -⟩
    all_goals omega

structure Ordered (n : Nat) (s : State) : Prop where
  joined : Joined n s
  accounted : Accounted n s.workers
  kafkaPoller :
    Budget KafkaPoint.polled s.workers.shutdownRequested s.kafkaPoller s.lateTurns s.latePolls

theorem step_ordered (n : Nat) (s : State) (l : Label) (t : State) (h : step n s l = some t)
    (hs : Ordered n s) : Ordered n t := by
  cases l with
  | worker l =>
      obtain ⟨workers, hw, rfl⟩ := Option.map_eq_some_iff.mp h
      obtain ⟨hpoller, hprocessors⟩ := worker_left hw
      refine ⟨⟨fun hj => hpoller (hs.joined.poller hj),
        fun w hwn hj => hprocessors w (hs.joined.processors w hwn hj), hs.joined.kafkaPoller,
        hs.joined.le⟩, step_accounted n _ _ _ hw hs.accounted, ?_⟩
      cases l with
      | signal =>
          cases hw
          exact hs.kafkaPoller.set
      | poller action =>
          change Budget _ workers.shutdownRequested _ _ _
          rw [(pollerStep_nearer hw).2.2]
          exact hs.kafkaPoller
      | processor w action =>
          obtain ⟨-, hw⟩ := Option.ite_none_right_eq_some.mp hw
          obtain ⟨-, -, -, -, hflag⟩ := processorStep_nearer hw
          change Budget _ workers.shutdownRequested _ _ _
          rw [hflag]
          exact hs.kafkaPoller
  | kafkaPoller action =>
      obtain ⟨hworkers, hjoined, hne, -⟩ := kafkaStep_nearer h
      have hbudget := kafkaStep_budget h hs.kafkaPoller
      rw [← hworkers] at hbudget
      refine ⟨⟨?_, ?_, ?_, ?_⟩, ?_, hbudget⟩
      · rw [hworkers, hjoined]
        exact hs.joined.poller
      · rw [hworkers, hjoined]
        exact hs.joined.processors
      · rw [hjoined]
        exact fun hj => absurd (hs.joined.kafkaPoller hj) hne
      · rw [hjoined]
        exact hs.joined.le
      · rw [hworkers]
        exact hs.accounted
  | join =>
      obtain ⟨hjoin, he⟩ := Option.ite_none_right_eq_some.mp h
      cases he
      exact ⟨join_joined hs.joined hjoin, hs.accounted, hs.kafkaPoller⟩

theorem init_ordered (n : Nat) : Ordered n init :=
  ⟨⟨fun h => absurd h (Nat.lt_irrefl 0), fun _ _ h => absurd h (Nat.not_lt_zero _),
    fun h => absurd h (Nat.not_lt_zero _), Nat.zero_le _⟩, init_accounted n, Budget.start _⟩

theorem step_remaining {s t : State} {l : Label} (h : step n s l = some t)
    (hstop : s.workers.shutdownRequested = true) :
    t.workers.shutdownRequested = true ∧ t.remaining n + l.moves.toNat ≤ s.remaining n := by
  cases l with
  | worker l =>
      obtain ⟨workers, hw, rfl⟩ := Option.map_eq_some_iff.mp h
      obtain ⟨hflag, hle⟩ := worker_remaining hstop hw
      refine ⟨hflag, ?_⟩
      change workersRemaining n workers + weight kafkaLeft s.kafkaPoller + (n + 2 - s.joined) + _ ≤
        workersRemaining n s.workers + weight kafkaLeft s.kafkaPoller + (n + 2 - s.joined)
      omega
  | kafkaPoller action =>
      obtain ⟨hworkers, hjoined, -, hlt⟩ := kafkaStep_nearer h
      have hlt := hlt hstop
      rw [State.remaining, State.remaining, hworkers, hjoined]
      refine ⟨hstop, ?_⟩
      change _ + 1 ≤ _
      omega
  | join =>
      obtain ⟨hjoin, he⟩ := Option.ite_none_right_eq_some.mp h
      cases he
      refine ⟨hstop, ?_⟩
      have hj : s.joined < n + 2 := by
        rcases canJoin_cases hjoin with ⟨hj, -⟩ | ⟨w, hw, hj, -⟩ | ⟨hj, -⟩
        all_goals omega
      change workersRemaining n s.workers + weight kafkaLeft s.kafkaPoller +
          (n + 2 - (s.joined + 1)) + 1 ≤
        workersRemaining n s.workers + weight kafkaLeft s.kafkaPoller + (n + 2 - s.joined)
      omega

theorem weight_le (hleft : ∀ point, left point ≤ 2) (position : Position α) :
    weight left position ≤ 4 := by
  cases position with
  | head => exact Nat.le_add_left 1 3
  | waiting => exact Nat.le_refl 4
  | working point => exact Nat.le_succ_of_le (Nat.succ_le_succ (hleft point))
  | left => exact Nat.zero_le 4

theorem remaining_le (s : State) : s.remaining n ≤ 5 * (n + 2) := by
  have hpoller := @weight_le _ pollerLeft (fun point => by cases point <;> simp [pollerLeft])
    s.workers.poller
  have hkafka := @weight_le _ kafkaLeft (fun point => by cases point <;> simp [kafkaLeft])
    s.kafkaPoller
  have hprocessors := Finset.sum_le_card_nsmul (Finset.range n)
    (fun w => weight processorLeft (s.workers.processors w)) 4
    fun w _ => weight_le (fun point => by cases point <;> simp [processorLeft]) _
  rw [Finset.card_range] at hprocessors
  change (Finset.range n).sum _ ≤ n * 4 at hprocessors
  rw [State.remaining, workersRemaining]
  omega

theorem poller_enabled {s : Workers.State} (h : s.poller ≠ .left) :
    ∃ action t, s.pollerStep action = some t := by
  cases hp : s.poller with
  | head => exact ⟨.test, by simp [Workers.State.pollerStep, hp, Position.test]⟩
  | waiting => exact ⟨.wake, by simp [Workers.State.pollerStep, hp, Position.wake]⟩
  | working point =>
      cases point with
      | poll => exact ⟨.poll ⟨[]⟩, by simp [Workers.State.pollerStep, hp]⟩
      | enqueue r =>
          refine ⟨.enqueue, ?_⟩
          simp only [Workers.State.pollerStep, hp]
          split_ifs
          all_goals exact ⟨_, rfl⟩
  | left => exact absurd hp h

theorem processor_enabled {s : Workers.State} {w : Nat} (h : s.processors w ≠ .left) :
    ∃ action t, s.processorStep w action = some t := by
  cases hp : s.processors w with
  | head => exact ⟨.test, by simp [Workers.State.processorStep, hp, Position.test]⟩
  | waiting => exact ⟨.wake, by simp [Workers.State.processorStep, hp, Position.wake]⟩
  | working point =>
      cases point with
      | dequeue => exact ⟨.dequeue, by simp [Workers.State.processorStep, hp]⟩
      | handle d => exact ⟨.handleReturns, by simp [Workers.State.processorStep, hp]⟩
  | left => exact absurd hp h

theorem kafkaPoller_enabled {s : State} (h : s.kafkaPoller ≠ .left) :
    ∃ action t, s.kafkaStep action = some t := by
  cases hp : s.kafkaPoller with
  | head => exact ⟨.test, by simp [State.kafkaStep, hp, Position.test]⟩
  | waiting => exact ⟨.wake, by simp [State.kafkaStep, hp, Position.wake]⟩
  | working point =>
      cases point with
      | poll => exact ⟨.poll, by simp [State.kafkaStep, hp]⟩
      | sleep => exact ⟨.wakeUp, by simp [State.kafkaStep, hp]⟩
  | left => exact absurd hp h

theorem joining_enabled {s : State} (h : s.joined < n + 2) :
    ∃ l t, l.moves = true ∧ step n s l = some t := by
  by_cases hjoin : s.canJoin n = true
  · exact ⟨.join, _, rfl, if_pos hjoin⟩
  · rw [State.canJoin] at hjoin
    split at hjoin
    next hj =>
      rw [hasLeft_iff] at hjoin
      obtain ⟨action, t, ht⟩ := poller_enabled hjoin
      exact ⟨.worker (.poller action), { s with workers := t }, rfl, congrArg (Option.map _) ht⟩
    next k hj =>
      split_ifs at hjoin with hk
      · rw [hasLeft_iff] at hjoin
        obtain ⟨action, t, ht⟩ := processor_enabled hjoin
        refine ⟨.worker (.processor k action), { s with workers := t }, rfl, ?_⟩
        rw [step, Workers.step, if_pos hk, ht]
        rfl
      · have hkn : k = n := by omega
        rw [hkn, decide_eq_true rfl, Bool.true_and, hasLeft_iff] at hjoin
        obtain ⟨action, t, ht⟩ := kafkaPoller_enabled hjoin
        exact ⟨.kafkaPoller action, t, rfl, ht⟩

/-- Once the shutdown is requested the threads and main can do no more than so many
steps, and one of them can always move until main has joined them all. Then what
came out of the queue has been handled to the end. -/
theorem shutdown_completes {tr : List Label} {s : State} (hr : run (step n) init tr = some s)
    (hstop : s.workers.shutdownRequested = true) :
    (∀ tr' t, run (step n) s tr' = some t → tr'.countP Label.moves ≤ 5 * (n + 2)) ∧
      (s.joined < n + 2 → ∃ l t, l.moves = true ∧ step n s l = some t) ∧
      (s.joined = n + 2 → s.workers.allLeft n ∧ s.kafkaPoller = .left ∧ s.latePolls ≤ 1 ∧
        s.workers.taken.Perm s.workers.returned) := by
  have hordered := run_invariant (step_ordered n) hr (init_ordered n)
  refine ⟨?_, joining_enabled, ?_⟩
  · intro tr' t hr'
    have hcount := run_measure (I := fun s => s.workers.shutdownRequested = true)
      (fun s l t h hstop => step_remaining h hstop) hr' hstop
    have hle := @remaining_le n s
    omega
  · intro hj
    have hjoined := hordered.joined
    have hleft : s.workers.allLeft n :=
      ⟨hjoined.poller (by omega), fun w hw => hjoined.processors w hw (by omega)⟩
    exact ⟨hleft, hjoined.kafkaPoller (by omega), hordered.kafkaPoller.le.2,
      allLeft_accounted hordered.accounted hleft⟩

theorem shutdown_completes_idle : ∃ s, run (step 1) init
      [.worker .signal, .worker (.poller .test), .worker (.processor 0 .test), .kafkaPoller .test,
        .join, .join, .join] = some s ∧
    (∀ tr' t, run (step 1) s tr' = some t → tr'.countP Label.moves ≤ 5 * (1 + 2)) ∧
      (s.joined < 1 + 2 → ∃ l t, l.moves = true ∧ step 1 s l = some t) ∧
      (s.joined = 1 + 2 → s.workers.allLeft 1 ∧ s.kafkaPoller = .left ∧ s.latePolls ≤ 1 ∧
        s.workers.taken.Perm s.workers.returned) := by
  have hr : ∃ s, run (step 1) init
      [.worker .signal, .worker (.poller .test), .worker (.processor 0 .test), .kafkaPoller .test,
        .join, .join, .join] = some s ∧ s.workers.shutdownRequested = true := ⟨_, rfl, rfl⟩
  obtain ⟨s, hs, hstop⟩ := hr
  exact ⟨s, hs, shutdown_completes hs hstop⟩

end Flycatcher.Shutdown
