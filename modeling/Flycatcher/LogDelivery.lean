import Flycatcher.LogProcessor

namespace Flycatcher.LogDelivery

open Library.TextStreams Library.Runs Logging LogProcessor
open HandOver (SafeQueue.dequeueWithTimeout)

def written (output : Output) : List Str := (output.filter fun line => !line.own).map Line.text

def inFlight : Point → List Str
  | .logging message => [message]
  | .drained msg => [msg]
  | _ => []

def ofThread : Label → Bool
  | .thread _ => true
  | _ => false

def LeavesEmpty (s : State) (l : Label) : Prop :=
  ofThread l = true → s.thread = .testing → s.shouldRun = false → s.queue = []

/-- The messages up to now are written, lost, in flight or in the queue, in this
order. What is lost is lost in the drain, for a cut-off above its level. -/
structure Accounted (cutoff : Level) (s : State) (lost : List Str) : Prop where
  ordered : Ordered s
  account : messages cutoff s.calls = written s.output ++ lost ++ inFlight s.thread ++ s.queue
  drain : lost ≠ [] → s.thread.leaving = true ∧ Level.info.value < cutoff.value
  remaining : s.thread.leaving = true → Level.info.value < cutoff.value →
    s.remaining = lost ++ inFlight s.thread ++ s.queue
  drained : s.thread = .closing ∨ s.thread = .finished → s.queue = []

theorem written_log (text : Str) (output : Output) :
    written (log text false output) = written output ++ [text] := by
  simp [written, log]

theorem written_logNamed (cutoff : Level) (timestamp message : Str) (level : Level) (name : Str)
    (output : Output) :
    written (logNamed cutoff timestamp message level name true output) = written output := by
  rw [logNamed]
  split_ifs
  · rfl
  · simp [written, log]

theorem init_accounted (cutoff : Level) (shouldRun : Bool) :
    Accounted cutoff (init shouldRun) [] :=
  ⟨init_ordered shouldRun, rfl, fun h => absurd rfl h, fun h => (by cases h), fun _ => rfl⟩

theorem lost_nil {cutoff : Level} {s : State} {lost : List Str} (hs : Accounted cutoff s lost)
    (h : s.thread.leaving = false) : lost = [] := by
  by_contra hlost
  rw [(hs.drain hlost).1] at h
  cases h

theorem accounted_looping {cutoff : Level} {s : State} (hordered : Ordered s)
    (hleaving : s.thread.leaving = false)
    (haccount : messages cutoff s.calls = written s.output ++ inFlight s.thread ++ s.queue) :
    Accounted cutoff s [] := by
  refine ⟨hordered, by rw [List.append_nil]; exact haccount, fun h => absurd rfl h, ?_, ?_⟩
  · intro h
    rw [hleaving] at h
    cases h
  · rintro (h | h)
    all_goals
      rw [h] at hleaving
      cases hleaving

section ThreadSteps

variable {cutoff : Level} {timestamp : Str} {s t : State} {lost : List Str}

theorem threadStep_looping (h : s.threadStep cutoff timestamp = some t) (hs : Accounted cutoff s lost)
    (hleaving : s.thread.leaving = false) : Accounted cutoff t [] := by
  have hordered := threadStep_ordered h hs.ordered
  have haccount := hs.account
  obtain rfl := lost_nil hs hleaving
  cases hp : s.thread with
  | created =>
      simp only [State.threadStep, hp] at h
      cases h
  | entering | waiting =>
      simp only [State.threadStep, hp, List.append_nil] at h haccount
      cases h
      exact accounted_looping hordered rfl haccount
  | testing =>
      simp only [State.threadStep, hp] at h haccount
      split_ifs at h
      · cases h
        rw [List.append_nil] at haccount
        exact accounted_looping hordered rfl haccount
      · cases h
        exact ⟨hordered, haccount, fun h => absurd rfl h, fun _ _ => rfl, by simp⟩
  | dequeuing =>
      simp only [State.threadStep, hp] at h haccount
      split at h
      next message queue hqueue =>
          cases h
          refine accounted_looping hordered rfl ?_
          simpa [hqueue, inFlight] using haccount
      next => cases h
  | logging message =>
      simp only [State.threadStep, hp] at h haccount
      cases h
      refine accounted_looping hordered rfl ?_
      simpa [written_log, inFlight] using haccount
  | announcing | draining | drained message | closing | finished =>
      rw [hp] at hleaving
      cases hleaving

theorem threadStep_draining (h : s.threadStep cutoff timestamp = some t) (hs : Accounted cutoff s lost)
    (hp : s.thread = .draining) : Accounted cutoff t lost := by
  have hordered := threadStep_ordered h hs.ordered
  have haccount := hs.account
  have hremaining := hs.remaining (by rw [hp]; rfl)
  simp only [State.threadStep, hp] at h haccount
  cases hqueue : s.queue with
  | nil =>
      simp only [hqueue, SafeQueue.dequeueWithTimeout, List.isEmpty_nil] at h
      cases h
      refine ⟨hordered, ?_, fun hl => ⟨rfl, (hs.drain hl).2⟩, ?_, fun _ => rfl⟩
      · simpa [hqueue, inFlight] using haccount
      · intro _ hc
        simpa [hp, hqueue, inFlight] using hremaining hc
  | cons msg queue =>
      -- the empty message ends the drain, and no message is empty
      have hmsg : msg ≠ [] := by
        apply @mem_messages_ne_nil cutoff s.calls
        rw [haccount, hqueue]
        simp
      have hne : msg.isEmpty = false := by simpa using hmsg
      simp only [hqueue, SafeQueue.dequeueWithTimeout, hne] at h
      cases h
      refine ⟨hordered, ?_, fun hl => ⟨rfl, (hs.drain hl).2⟩, ?_, by simp⟩
      · simpa [hqueue, inFlight] using haccount
      · intro _ hc
        simpa [hp, hqueue, inFlight] using hremaining hc

/-- The drain logs what it has taken, or loses it when its level is cut off. -/
theorem threadStep_drained {msg : Str} (h : s.threadStep cutoff timestamp = some t)
    (hs : Accounted cutoff s lost) (hp : s.thread = .drained msg) :
    ∃ lost', Accounted cutoff t lost' := by
  have hordered := threadStep_ordered h hs.ordered
  have haccount := hs.account
  have hremaining := hs.remaining (by rw [hp]; rfl)
  simp only [State.threadStep, hp, logAt] at h haccount
  split_ifs at h with hcutoff
  · cases h
    refine ⟨lost ++ [msg], hordered, ?_, fun _ => ⟨rfl, hcutoff⟩, ?_, by simp⟩
    · simpa [inFlight] using haccount
    · intro _ hc
      simpa [hp, inFlight] using hremaining hc
  · cases h
    have hlost : lost = [] := by
      by_contra hl
      exact hcutoff (hs.drain hl).2
    subst hlost
    refine ⟨[], hordered, ?_, fun h => absurd rfl h, fun _ hc => absurd hc hcutoff, by simp⟩
    simpa [written_log, inFlight] using haccount

theorem threadStep_accounted (h : s.threadStep cutoff timestamp = some t)
    (hs : Accounted cutoff s lost) : ∃ lost', Accounted cutoff t lost' := by
  have hordered := threadStep_ordered h hs.ordered
  have haccount := hs.account
  have hremaining := hs.remaining
  cases hp : s.thread with
  | created | entering | waiting | testing | dequeuing | logging =>
      exact ⟨[], threadStep_looping h hs (by rw [hp]; rfl)⟩
  | announcing =>
      simp only [State.threadStep, hp] at h haccount
      cases h
      refine ⟨lost, hordered, ?_, fun hl => ⟨rfl, (hs.drain hl).2⟩, ?_, by simp⟩
      · simpa [written_logNamed, inFlight] using haccount
      · intro _ hc
        simpa [hp, inFlight] using hremaining (by rw [hp]; rfl) hc
  | draining => exact ⟨lost, threadStep_draining h hs hp⟩
  | drained msg => exact threadStep_drained h hs hp
  | closing =>
      have hqueue := hs.drained (.inl hp)
      simp only [State.threadStep, hp] at h haccount
      cases h
      refine ⟨lost, hordered, ?_, fun hl => ⟨rfl, (hs.drain hl).2⟩, ?_, fun _ => hqueue⟩
      · simpa [written_logNamed, inFlight] using haccount
      · intro _ hc
        simpa [hp, inFlight] using hremaining (by rw [hp]; rfl) hc
  | finished =>
      simp only [State.threadStep, hp] at h
      cases h

end ThreadSteps

theorem ordered_before {s : State} (hs : Ordered s) (h : s.main = .beforeStart ∨ s.main = .running) :
    s.thread.leaving = false := by
  rcases h with h | h
  · rw [hs.notStarted h]
    rfl
  · exact (hs.running h).2.1

theorem step_accounted (cutoff : Level) (s : State) (l : Label) (t : State)
    (h : step cutoff s l = some t) (hs : ∃ lost, Accounted cutoff s lost) :
    ∃ lost, Accounted cutoff t lost := by
  obtain ⟨lost, hs⟩ := hs
  have hordered := step_ordered cutoff s l t h hs.ordered
  cases l with
  | thread timestamp => exact threadStep_accounted h hs
  | start =>
      simp only [step] at h
      split_ifs at h with hmain
      have hcreated := hs.ordered.notStarted hmain
      obtain rfl := lost_nil hs (by rw [hcreated]; rfl)
      have haccount := hs.account
      rw [hcreated, List.append_nil] at haccount
      cases h
      exact ⟨[], accounted_looping hordered rfl haccount⟩
  | call call =>
      simp only [step] at h
      split_ifs at h with hmain
      have hleaving := ordered_before hs.ordered hmain
      obtain rfl := lost_nil hs hleaving
      cases h
      refine ⟨[], accounted_looping hordered hleaving ?_⟩
      rw [messages_append, hs.account, perform_eq, List.append_assoc, List.append_nil]
  | stop | join =>
      simp only [step] at h
      split_ifs at h
      cases h
      exact ⟨lost, hordered, hs.account, hs.drain, hs.remaining, hs.drained⟩

theorem step_remaining {cutoff : Level} {s t : State} {l : Label} (h : step cutoff s l = some t)
    (hordered : Ordered s) (hs : s.thread.leaving = false → s.remaining = []) :
    (t.remaining = [] ↔ LeavesEmpty s l ∧ s.remaining = []) ∧
      (t.thread.leaving = false → t.remaining = []) := by
  cases l with
  | start =>
      simp only [step] at h
      split_ifs at h with hmain
      have hnone := hs (by rw [hordered.notStarted hmain]; rfl)
      cases h
      exact ⟨iff_of_true hnone ⟨fun h => (by cases h), hnone⟩, fun _ => hnone⟩
  | call call | stop | join =>
      simp only [step] at h
      split_ifs at h
      cases h
      exact ⟨(and_iff_right fun h => (by cases h)).symm, hs⟩
  | thread timestamp =>
      have hother (hne : s.thread ≠ .testing) : LeavesEmpty s (.thread timestamp) :=
        fun _ htesting => absurd htesting hne
      simp only [step] at h
      cases hp : s.thread with
      | testing =>
          have hnone := hs (by rw [hp]; rfl)
          simp only [State.threadStep, hp] at h
          split_ifs at h with hflag
          · cases h
            have hmeets : LeavesEmpty s (.thread timestamp) := by
              intro _ _ hfalse
              rw [hflag] at hfalse
              cases hfalse
            exact ⟨iff_of_true hnone ⟨hmeets, hnone⟩, fun _ => hnone⟩
          · cases h
            refine ⟨?_, fun h => (by cases h)⟩
            rw [and_iff_left hnone]
            exact ⟨fun hq _ _ _ => hq, fun hq => hq rfl hp (by simpa using hflag)⟩
      | dequeuing =>
          have hnone := hs (by rw [hp]; rfl)
          simp only [State.threadStep, hp] at h
          split at h <;> cases h
          exact ⟨(and_iff_right (hother (by simp [hp]))).symm, fun _ => hnone⟩
      | draining =>
          simp only [State.threadStep, hp] at h
          cases h
          refine ⟨(and_iff_right (hother (by simp [hp]))).symm, ?_⟩
          dsimp only
          split <;> intro h <;> cases h
      | created | finished =>
          simp only [State.threadStep, hp] at h
          cases h
      | entering | waiting | logging =>
          have hnone := hs (by rw [hp]; rfl)
          simp only [State.threadStep, hp] at h
          cases h
          exact ⟨(and_iff_right (hother (by simp [hp]))).symm, fun _ => hnone⟩
      | announcing | drained | closing =>
          simp only [State.threadStep, hp] at h
          cases h
          exact ⟨(and_iff_right (hother (by simp [hp]))).symm, fun h => (by cases h)⟩

theorem remaining_iff_along {cutoff : Level} {s t : State} {tr : List Label}
    (hr : run (step cutoff) s tr = some t) (hordered : Ordered s)
    (hs : s.thread.leaving = false → s.remaining = []) :
    t.remaining = [] ↔ Along (step cutoff) LeavesEmpty s tr ∧ s.remaining = [] := by
  induction tr generalizing s with
  | nil =>
      cases hr
      exact (and_iff_right trivial).symm
  | cons l tr ih =>
      obtain ⟨u, hu, hr⟩ := run_cons_eq_some.mp hr
      obtain ⟨hiff, hnone⟩ := step_remaining hu hordered hs
      rw [ih hr (step_ordered cutoff s l u hu hordered) hnone, hiff, along_cons_iff hu]
      tauto

/-- When run has come to its end, the messages at or above the cut-off have been
written in their order exactly when none was left for the drain, unless the
level that the drain logs at is not cut off itself. -/
theorem written_iff {cutoff : Level} {shouldRun : Bool} {tr : List Label} {t : State}
    (hr : run (step cutoff) (init shouldRun) tr = some t) (hfinished : t.thread = .finished) :
    written t.output = messages cutoff t.calls ↔
      cutoff.value ≤ Level.info.value ∨
        Along (step cutoff) LeavesEmpty (init shouldRun) tr := by
  obtain ⟨lost, ht⟩ := run_invariant (step_accounted cutoff) hr ⟨[], init_accounted cutoff shouldRun⟩
  have hqueue := ht.drained (.inr hfinished)
  have hremaining := remaining_iff_along hr (init_ordered shouldRun) fun _ => rfl
  have haccount := ht.account
  rw [hfinished, hqueue] at haccount
  simp only [inFlight, List.append_nil] at haccount
  have hlost : written t.output = messages cutoff t.calls ↔ lost = [] := by
    rw [haccount]
    simp
  rw [hlost]
  by_cases hc : cutoff.value ≤ Level.info.value
  · refine iff_of_true ?_ (.inl hc)
    by_contra hl
    have := (ht.drain hl).2
    omega
  · have hrest := ht.remaining (by rw [hfinished]; rfl) (by omega)
    rw [hfinished, hqueue] at hrest
    simp only [inFlight, List.append_nil] at hrest
    rw [← hrest, hremaining, or_iff_right hc]
    exact and_iff_left rfl

def logged : List Label :=
  [.start, .call lastMessage, .thread [], .thread [], .thread [], .thread [], .thread [], .stop,
    .thread [], .thread [], .thread [], .thread []]

theorem written_logged : ∃ t, run (step .warn) (init false) logged = some t ∧ t.thread = .finished ∧
    (written t.output = messages .warn t.calls ↔
      Level.warn.value ≤ Level.info.value ∨ Along (step .warn) LeavesEmpty (init false) logged) := by
  have hr : ∃ t, run (step .warn) (init false) logged = some t ∧ t.thread = .finished := ⟨_, rfl, rfl⟩
  obtain ⟨t, ht, hfinished⟩ := hr
  exact ⟨t, ht, hfinished, written_iff ht hfinished⟩

/-- An error that is left for the drain is not written where warnings are the
lowest level. -/
theorem error_lost : ∃ tr t, run (step .warn) (init false) tr = some t ∧ t.thread = .finished ∧
    t.calls = [lastMessage] ∧ written t.output = [] ∧ messages .warn t.calls ≠ [] :=
  ⟨[.start, .thread [], .call lastMessage, .stop, .thread [], .thread [], .thread [], .thread [],
    .thread [], .thread []], _, rfl, rfl, rfl, rfl, by decide⟩

end Flycatcher.LogDelivery
