import Flycatcher.Library.Runs
import Mathlib.Data.List.Basic
import Mathlib.Logic.Function.Basic

namespace Library.Monitors

open Runs

variable {σ τ ι : Type}

inductive Instr (σ τ : Type)
  | run (f : σ × τ → σ × τ)
  | notifyAll

/-- A method takes the mutex, waits for its condition and goes through its body. A
wait with a time limit goes on to the body when the time is up. The thread owes a
notification from the body on until it notifies. -/
structure Method (σ τ : Type) where
  condition : σ → Bool
  timed : Bool
  locals : τ
  body : List (Instr σ τ)
  owes : Bool

def runBody (body : List (Instr σ τ)) (x : σ × τ) : σ × τ :=
  body.foldl (fun x instr => match instr with
    | .run f => f x
    | .notifyAll => x) x

def Method.effect (m : Method σ τ) (shared : σ) : σ × τ := runBody m.body (shared, m.locals)

inductive Thread (σ τ ι : Type)
  | outside
  | blocked (m : ι) (expired : Bool)
  | testing (m : ι) (expired : Bool)
  | asleep (m : ι)
  | inside (m : ι) (locals : τ) (rest : List (Instr σ τ))

def Thread.holds : Thread σ τ ι → Bool
  | .testing _ _ | .inside _ _ _ => true
  | _ => false

def Thread.notified : Thread σ τ ι → Thread σ τ ι
  | .asleep m => .blocked m false
  | thread => thread

structure State (σ τ ι : Type) where
  shared : σ
  mutex : Option Nat
  threads : Nat → Thread σ τ ι
  owing : Nat → Bool
  done : List (Nat × ι × τ)

inductive Action (ι : Type)
  | call (m : ι)
  | acquire
  | test
  | wake
  | expire
  | exec
  | leave
  | notify

def State.goto (s : State σ τ ι) (w : Nat) (thread : Thread σ τ ι) : State σ τ ι :=
  { s with threads := Function.update s.threads w thread }

def State.notifyAll (s : State σ τ ι) (w : Nat) : State σ τ ι :=
  { s with
    threads := fun v => (s.threads v).notified
    owing := Function.update s.owing w false }

def State.tested (method : ι → Method σ τ) (s : State σ τ ι) (w : Nat) (m : ι) (expired : Bool) :
    State σ τ ι :=
  if ((method m).condition s.shared || expired) = true then
    { s with owing := Function.update s.owing w (s.owing w || (method m).owes) }.goto w
      (.inside m (method m).locals (method m).body)
  else { s with mutex := none }.goto w (.asleep m)

/-- A step of the thread w. A thread may wake up without a notification. -/
def threadStep (method : ι → Method σ τ) (s : State σ τ ι) (w : Nat) (a : Action ι) :
    Option (State σ τ ι) :=
  match s.threads w, a with
  | .outside, .call m => some (s.goto w (.blocked m false))
  | .outside, .notify => some (s.notifyAll w)
  | .blocked m expired, .acquire =>
      if s.mutex = none then some ({ s with mutex := some w }.goto w (.testing m expired)) else none
  | .testing m expired, .test => some (s.tested method w m expired)
  | .asleep m, .wake => some (s.goto w (.blocked m false))
  | .asleep m, .expire =>
      if (method m).timed = true then some (s.goto w (.blocked m true)) else none
  | .inside m locals (.run f :: rest), .exec =>
      some ({ s with shared := (f (s.shared, locals)).1 }.goto w
        (.inside m (f (s.shared, locals)).2 rest))
  | .inside m locals (.notifyAll :: rest), .exec =>
      some ((s.notifyAll w).goto w (.inside m locals rest))
  | .inside m locals [], .leave =>
      some ({ s with mutex := none, done := s.done ++ [(w, m, locals)] }.goto w .outside)
  | _, _ => none

def step (method : ι → Method σ τ) (s : State σ τ ι) (l : Nat × Action ι) : Option (State σ τ ι) :=
  threadStep method s l.1 l.2

def start (shared : σ) : State σ τ ι := ⟨shared, none, fun _ => .outside, fun _ => false, []⟩

structure Atomic (σ τ ι : Type) where
  shared : σ
  done : List (Nat × ι × τ)

def Atomic.perform (method : ι → Method σ τ) (s : Atomic σ τ ι) (w : Nat) (m : ι) : Atomic σ τ ι :=
  ⟨((method m).effect s.shared).1, s.done ++ [(w, m, ((method m).effect s.shared).2)]⟩

def atomicStep (method : ι → Method σ τ) (s : Atomic σ τ ι) (l : Nat × ι) : Option (Atomic σ τ ι) :=
  if ((method l.2).condition s.shared || (method l.2).timed) = true then some (s.perform method l.1 l.2)
  else none

inductive Stepped (method : ι → Method σ τ) (s : State σ τ ι) (w : Nat) :
    Action ι → State σ τ ι → Prop
  | call (m : ι) (hw : s.threads w = .outside) :
      Stepped method s w (.call m) (s.goto w (.blocked m false))
  | notify (hw : s.threads w = .outside) : Stepped method s w .notify (s.notifyAll w)
  | acquire {m : ι} {expired : Bool} (hw : s.threads w = .blocked m expired) (hm : s.mutex = none) :
      Stepped method s w .acquire ({ s with mutex := some w }.goto w (.testing m expired))
  | enter {m : ι} {expired : Bool} (hw : s.threads w = .testing m expired)
      (hc : (method m).condition s.shared = true ∨ expired = true) :
      Stepped method s w .test
        ({ s with owing := Function.update s.owing w (s.owing w || (method m).owes) }.goto w
          (.inside m (method m).locals (method m).body))
  | sleep {m : ι} {expired : Bool} (hw : s.threads w = .testing m expired)
      (hc : (method m).condition s.shared = false) :
      Stepped method s w .test ({ s with mutex := none }.goto w (.asleep m))
  | wake {m : ι} (hw : s.threads w = .asleep m) :
      Stepped method s w .wake (s.goto w (.blocked m false))
  | expire {m : ι} (hw : s.threads w = .asleep m) (ht : (method m).timed = true) :
      Stepped method s w .expire (s.goto w (.blocked m true))
  | run {m : ι} {locals : τ} {f : σ × τ → σ × τ} {rest : List (Instr σ τ)}
      (hw : s.threads w = .inside m locals (.run f :: rest)) :
      Stepped method s w .exec ({ s with shared := (f (s.shared, locals)).1 }.goto w
        (.inside m (f (s.shared, locals)).2 rest))
  | notifyAll {m : ι} {locals : τ} {rest : List (Instr σ τ)}
      (hw : s.threads w = .inside m locals (.notifyAll :: rest)) :
      Stepped method s w .exec ((s.notifyAll w).goto w (.inside m locals rest))
  | leave {m : ι} {locals : τ} (hw : s.threads w = .inside m locals []) :
      Stepped method s w .leave
        ({ s with mutex := none, done := s.done ++ [(w, m, locals)] }.goto w .outside)

theorem threadStep_stepped {method : ι → Method σ τ} {s t : State σ τ ι} {w : Nat} {a : Action ι}
    (h : threadStep method s w a = some t) : Stepped method s w a t := by
  unfold threadStep at h
  split at h
  next m hw => cases h; exact .call m hw
  next hw => cases h; exact .notify hw
  next m expired hw =>
    obtain ⟨hm, he⟩ := Option.ite_none_right_eq_some.mp h
    cases he
    exact .acquire hw hm
  next m expired hw =>
    cases h
    rw [State.tested]
    split_ifs with hc
    · exact .enter hw ((Bool.or_eq_true ..).mp hc)
    · rw [Bool.not_eq_true, Bool.or_eq_false_iff] at hc
      exact .sleep hw hc.1
  next m hw => cases h; exact .wake hw
  next m hw =>
    obtain ⟨ht, he⟩ := Option.ite_none_right_eq_some.mp h
    cases he
    exact .expire hw ht
  next m locals f rest hw => cases h; exact .run hw
  next m locals rest hw => cases h; exact .notifyAll hw
  next m locals hw => cases h; exact .leave hw
  next => cases h

def Exclusive (s : State σ τ ι) : Prop := ∀ w, (s.threads w).holds = true ↔ s.mutex = some w

def State.pending (s : State σ τ ι) : Option (Nat × ι × τ × List (Instr σ τ)) :=
  match s.mutex with
  | none => none
  | some w =>
      match s.threads w with
      | .inside m locals rest => some (w, m, locals, rest)
      | _ => none

def finish (shared : σ) (done : List (Nat × ι × τ)) :
    Option (Nat × ι × τ × List (Instr σ τ)) → Atomic σ τ ι
  | none => ⟨shared, done⟩
  | some (w, m, locals, rest) =>
      ⟨(runBody rest (shared, locals)).1, done ++ [(w, m, (runBody rest (shared, locals)).2)]⟩

def State.committed (s : State σ τ ι) : Atomic σ τ ι := finish s.shared s.done s.pending

section Refinement

variable {method : ι → Method σ τ} {s t : State σ τ ι} {w : Nat} {a : Action ι}

@[simp] theorem goto_threads_self (s : State σ τ ι) (w : Nat) (thread : Thread σ τ ι) :
    (s.goto w thread).threads w = thread := Function.update_self ..

theorem goto_threads_of_ne (s : State σ τ ι) {w v : Nat} (h : v ≠ w) (thread : Thread σ τ ι) :
    (s.goto w thread).threads v = s.threads v := Function.update_of_ne h ..

@[simp] theorem notifyAll_threads (s : State σ τ ι) (w v : Nat) :
    (s.notifyAll w).threads v = (s.threads v).notified := rfl

theorem notified_of_holds {thread : Thread σ τ ι} (h : thread.holds = true) :
    thread.notified = thread := by
  cases thread with
  | asleep m => cases h
  | outside | blocked | testing | inside => rfl

theorem notified_holds (thread : Thread σ τ ι) : thread.notified.holds = thread.holds := by
  cases thread <;> rfl

theorem pending_inside (hs : Exclusive s) {m : ι} {locals : τ} {rest : List (Instr σ τ)}
    (hw : s.threads w = .inside m locals rest) : s.pending = some (w, m, locals, rest) := by
  have hm : s.mutex = some w := (hs w).mp (by rw [hw]; rfl)
  rw [State.pending, hm]
  simp only [hw]

theorem pending_testing (hs : Exclusive s) {m : ι} {expired : Bool}
    (hw : s.threads w = .testing m expired) : s.pending = none := by
  have hm : s.mutex = some w := (hs w).mp (by rw [hw]; rfl)
  rw [State.pending, hm]
  simp only [hw]

theorem pending_free (hm : s.mutex = none) : s.pending = none := by
  rw [State.pending, hm]

theorem pending_congr (hm : t.mutex = s.mutex)
    (ht : ∀ v, s.mutex = some v → t.threads v = s.threads v) : t.pending = s.pending := by
  rw [State.pending, State.pending, hm]
  cases h : s.mutex with
  | none => rfl
  | some v => simp only [ht v h]

theorem exclusive_goto (hs : Exclusive s) {thread : Thread σ τ ι}
    (h : thread.holds = (s.threads w).holds) : Exclusive (s.goto w thread) := by
  intro v
  by_cases hv : v = w
  · rw [hv, goto_threads_self, h]
    exact hs w
  · rw [goto_threads_of_ne s hv]
    exact hs v

theorem exclusive_free (hs : Exclusive s) (hw : (s.threads w).holds = true) {thread : Thread σ τ ι}
    (h : thread.holds = false) (done : List (Nat × ι × τ)) :
    Exclusive ({ s with mutex := none, done := done }.goto w thread) := by
  intro v
  by_cases hv : v = w
  · rw [hv, goto_threads_self, h]
    simp [State.goto]
  · rw [goto_threads_of_ne _ hv]
    have hother : (s.threads v).holds = false := by
      rw [Bool.eq_false_iff]
      intro hc
      exact hv (Option.some.inj (((hs v).mp hc).symm.trans ((hs w).mp hw)))
    simp [State.goto, hother]

theorem notifyAll_exclusive (hs : Exclusive s) (w : Nat) : Exclusive (s.notifyAll w) := by
  intro v
  rw [notifyAll_threads, notified_holds]
  exact hs v

theorem stepped_exclusive (h : Stepped method s w a t) (hs : Exclusive s) : Exclusive t := by
  cases h with
  | call m hw | wake hw | expire hw =>
      apply exclusive_goto hs
      rw [hw]
      rfl
  | notify hw => exact notifyAll_exclusive hs w
  | @acquire m expired hw hm =>
      intro v
      by_cases hv : v = w
      · rw [hv, goto_threads_self]
        exact iff_of_true rfl rfl
      · rw [goto_threads_of_ne _ hv, hs v, hm]
        simp [State.goto, Ne.symm hv]
  | @enter m expired hw hc =>
      have he : Exclusive { s with
          owing := Function.update s.owing w (s.owing w || (method m).owes) } := hs
      apply exclusive_goto he
      rw [hw]
      rfl
  | sleep hw hc => exact exclusive_free hs (by rw [hw]; rfl) rfl s.done
  | run hw =>
      have he : Exclusive { s with shared := _ } := hs
      apply exclusive_goto he
      rw [hw]
      rfl
  | notifyAll hw =>
      apply exclusive_goto (notifyAll_exclusive hs w)
      rw [notifyAll_threads, hw]
      rfl
  | leave hw => exact exclusive_free hs (by rw [hw]; rfl) rfl _

theorem start_exclusive (shared : σ) : Exclusive (start shared : State σ τ ι) := by
  intro w
  simp [start, Thread.holds]

/-- A step outside the test of the condition changes nothing of what the bodies
come to, and a test that lets the thread into its body is the whole method. -/
theorem stepped_committed (h : Stepped method s w a t) (hs : Exclusive s) :
    t.committed = s.committed ∨
      ∃ m expired, s.threads w = .testing m expired ∧
        ((method m).condition s.committed.shared = true ∨ expired = true) ∧
        t.committed = s.committed.perform method w m := by
  have hquiet (hs' : s.shared = t.shared) (hd : s.done = t.done) (hp : t.pending = s.pending) :
      t.committed = s.committed := by
    rw [State.committed, State.committed, hs', hd, hp]
  cases h with
  | call m hw | wake hw | expire hw =>
      refine .inl (hquiet rfl rfl (pending_congr rfl ?_))
      intro v hv
      apply goto_threads_of_ne
      rintro rfl
      have hholds := (hs _).mpr hv
      rw [hw] at hholds
      cases hholds
  | notify hw =>
      refine .inl (hquiet rfl rfl (pending_congr rfl ?_))
      intro v hv
      exact notified_of_holds ((hs v).mpr hv)
  | acquire hw hm =>
      have ht := pending_testing (@stepped_exclusive _ _ _ method _ _ _ _ (.acquire hw hm) hs)
        (goto_threads_self _ w _)
      exact .inl (hquiet rfl rfl (ht.trans (pending_free hm).symm))
  | @enter m expired hw hc =>
      have hnone := pending_testing hs hw
      have hcommitted : s.committed = ⟨s.shared, s.done⟩ := by
        rw [State.committed, hnone]
        rfl
      have hinside := pending_inside (stepped_exclusive (.enter hw hc) hs) (goto_threads_self _ w _)
      refine .inr ⟨m, expired, hw, ?_, ?_⟩
      · rw [hcommitted]
        exact hc
      · rw [State.committed, hinside, hcommitted]
        rfl
  | sleep hw hc =>
      exact .inl (hquiet rfl rfl ((pending_free rfl).trans (pending_testing hs hw).symm))
  | run hw =>
      have hinside := pending_inside (@stepped_exclusive _ _ _ method _ _ _ _ (.run hw) hs)
        (goto_threads_self _ w _)
      refine .inl ?_
      rw [State.committed, State.committed, hinside, pending_inside hs hw]
      rfl
  | notifyAll hw =>
      have hinside := pending_inside (@stepped_exclusive _ _ _ method _ _ _ _ (.notifyAll hw) hs)
        (goto_threads_self _ w _)
      refine .inl ?_
      rw [State.committed, State.committed, hinside, pending_inside hs hw]
      rfl
  | leave hw =>
      refine .inl ?_
      rw [State.committed, State.committed, pending_inside hs hw]
      rfl

def Timely (method : ι → Method σ τ) (s : State σ τ ι) : Prop :=
  ∀ w m, s.threads w = .blocked m true ∨ s.threads w = .testing m true → (method m).timed = true

theorem timely_goto (hs : Timely method s) {thread : Thread σ τ ι}
    (h : ∀ m, thread = .blocked m true ∨ thread = .testing m true → (method m).timed = true) :
    Timely method (s.goto w thread) := by
  intro v m
  by_cases hv : v = w
  · rw [hv, goto_threads_self]
    exact h m
  · rw [goto_threads_of_ne s hv]
    exact hs v m

theorem notifyAll_timely (hs : Timely method s) (w : Nat) : Timely method (s.notifyAll w) := by
  intro v m
  rw [notifyAll_threads]
  have h := hs v m
  cases hv : s.threads v with
  | asleep m => simp [Thread.notified]
  | outside | blocked | testing | inside =>
      rw [hv] at h
      exact h

theorem stepped_timely (h : Stepped method s w a t) (hs : Timely method s) : Timely method t := by
  cases h with
  | call m hw | wake hw => exact timely_goto hs (by simp)
  | notify hw => exact notifyAll_timely hs w
  | @acquire m expired hw hm =>
      have he : Timely method { s with mutex := some w } := hs
      apply timely_goto he
      rintro m' (h' | h')
      · cases h'
      · cases h'
        exact hs w m (.inl hw)
  | @enter m expired hw hc =>
      have he : Timely method { s with
          owing := Function.update s.owing w (s.owing w || (method m).owes) } := hs
      exact timely_goto he (by simp)
  | sleep hw hc =>
      have he : Timely method { s with mutex := none } := hs
      exact timely_goto he (by simp)
  | @expire m hw ht =>
      apply timely_goto hs
      rintro m' (h' | h')
      · cases h'
        exact ht
      · cases h'
  | run hw =>
      have he : Timely method { s with shared := _ } := hs
      exact timely_goto he (by simp)
  | notifyAll hw => exact timely_goto (notifyAll_timely hs w) (by simp)
  | @leave m locals hw =>
      have he : Timely method { s with mutex := none, done := s.done ++ [(w, m, locals)] } := hs
      exact timely_goto he (by simp)

theorem start_timely (shared : σ) : Timely method (start shared) := by
  rintro w m (h | h) <;> cases h

def calls (done : List (Nat × ι × τ)) : List (Nat × ι) := done.map fun call => (call.1, call.2.1)

/-- What the threads do in any order of their steps the methods do one after the
other, in the order in which the threads get into their bodies. -/
theorem run_refines {shared : σ} {tr : List (Nat × Action ι)}
    (hr : Runs.run (step method) (start shared) tr = some t) :
    Runs.run (atomicStep method) ⟨shared, []⟩ (calls t.committed.done) = some t.committed := by
  have hinv := run_invariant
    (I := fun s => Exclusive s ∧ Timely method s ∧
      Runs.run (atomicStep method) ⟨shared, []⟩ (calls s.committed.done) = some s.committed)
    ?_ hr ⟨start_exclusive shared, start_timely shared, rfl⟩
  · exact hinv.2.2
  rintro s ⟨w, a⟩ t h ⟨hexclusive, htimely, hrun⟩
  have hstepped := threadStep_stepped h
  refine ⟨stepped_exclusive hstepped hexclusive, stepped_timely hstepped htimely, ?_⟩
  rcases stepped_committed hstepped hexclusive with hc | ⟨m, expired, hw, hcond, hc⟩
  · rw [hc]
    exact hrun
  · have hguard : ((method m).condition s.committed.shared || (method m).timed) = true := by
      rw [Bool.or_eq_true]
      apply hcond.imp_right
      rintro rfl
      exact htimely w m (.inr hw)
    rw [hc, Atomic.perform, calls, List.map_append, run_append]
    change (Runs.run _ _ (calls s.committed.done)).bind _ = _
    rw [hrun]
    simp only [Option.bind_some, List.map_cons, List.map_nil, run_cons, atomicStep, if_pos hguard,
      run_nil]
    rfl

/-- What has returned is what the bodies come to, but for the body under way. -/
theorem done_prefix (s : State σ τ ι) : s.done <+: s.committed.done := by
  rw [State.committed]
  cases s.pending with
  | none => exact List.prefix_rfl
  | some body => exact List.prefix_append s.done _

end Refinement

section Wakeups

variable {method : ι → Method σ τ} {s t : State σ τ ι} {w : Nat} {a : Action ι}

/-- Nobody sleeps on a condition that holds, or somebody is about to notify. -/
def Awake (method : ι → Method σ τ) (s : State σ τ ι) : Prop :=
  ∀ w m, s.threads w = .asleep m →
    (method m).condition s.shared = false ∨ ∃ v, s.owing v = true

def Quiet (method : ι → Method σ τ) (f : σ × τ → σ × τ) (x : σ × τ) : Prop :=
  ∀ m, (method m).condition x.1 = false → (method m).condition (f x).1 = false

theorem awake_of_sleepers (hs : Awake method s) (hshared : t.shared = s.shared)
    (hthreads : ∀ v m, t.threads v = .asleep m → s.threads v = .asleep m)
    (howing : ∀ v, s.owing v = true → t.owing v = true) : Awake method t := by
  intro v m hv
  rw [hshared]
  exact (hs v m (hthreads v m hv)).imp_right fun ⟨u, hu⟩ => ⟨u, howing u hu⟩

theorem asleep_of_goto {thread : Thread σ τ ι} (h : ∀ m, thread ≠ .asleep m) {v : Nat} {m : ι}
    (hv : (s.goto w thread).threads v = .asleep m) : s.threads v = .asleep m := by
  by_cases hvw : v = w
  · rw [hvw, goto_threads_self] at hv
    exact absurd hv (h m)
  · rwa [goto_threads_of_ne s hvw] at hv

theorem notifyAll_not_asleep (s : State σ τ ι) (w v : Nat) (m : ι) :
    (s.notifyAll w).threads v ≠ .asleep m := by
  rw [notifyAll_threads]
  cases s.threads v <;> simp [Thread.notified]

theorem stepped_awake (h : Stepped method s w a t)
    (hrun : ∀ m locals f rest, s.threads w = .inside m locals (.run f :: rest) →
      s.owing w = true ∨ Quiet method f (s.shared, locals)) (hs : Awake method s) :
    Awake method t := by
  cases h with
  | call m hw | wake hw | expire hw | acquire hw | leave hw =>
      exact awake_of_sleepers hs rfl (fun v m hv => asleep_of_goto (by simp) hv) fun _ hv => hv
  | notify hw =>
      intro v m hv
      exact absurd hv (notifyAll_not_asleep s w v m)
  | notifyAll hw =>
      intro v m hv
      exact absurd (asleep_of_goto (by simp) hv) (notifyAll_not_asleep s w v m)
  | enter hw hc =>
      refine awake_of_sleepers hs rfl (fun v m hv => asleep_of_goto (by simp) hv) ?_
      intro v hv
      by_cases hvw : v = w
      · subst hvw
        simp [State.goto, hv]
      · simp [State.goto, Function.update_of_ne hvw, hv]
  | @sleep m expired hw hc =>
      intro v m' hv
      by_cases hvw : v = w
      · subst hvw
        rw [goto_threads_self] at hv
        cases hv
        exact .inl hc
      · rw [goto_threads_of_ne _ hvw] at hv
        exact hs v m' hv
  | @run m locals f rest hw =>
      intro v m' hv
      have hold := asleep_of_goto (by simp) hv
      rcases hrun m locals f rest hw with howing | hquiet
      · exact .inr ⟨w, howing⟩
      · exact (hs v m' hold).imp_left (hquiet m')

theorem start_awake (shared : σ) : Awake method (start shared) := by
  intro w m h
  cases h

/-- In a body, each change that may bring a condition about has a notification
behind it that the thread owes. -/
def Announcing (method : ι → Method σ τ) : Bool → List (Instr σ τ) → Prop
  | _, [] => True
  | owing, .run f :: rest => (owing = true ∨ ∀ x, Quiet method f x) ∧ Announcing method owing rest
  | _, .notifyAll :: rest => Announcing method false rest

structure Prompt (method : ι → Method σ τ) (s : State σ τ ι) : Prop where
  bodies : ∀ w m locals rest, s.threads w = .inside m locals rest →
    Announcing method (s.owing w) rest
  ahead : ∀ w, s.owing w = true →
    ∃ m locals rest, s.threads w = .inside m locals rest ∧ Instr.notifyAll ∈ rest

def PromptThread (method : ι → Method σ τ) (thread : Thread σ τ ι) (owing : Bool) : Prop :=
  (∀ m locals rest, thread = .inside m locals rest → Announcing method owing rest) ∧
    (owing = true → ∃ m locals rest, thread = .inside m locals rest ∧ Instr.notifyAll ∈ rest)

theorem prompt_iff : Prompt method s ↔ ∀ w, PromptThread method (s.threads w) (s.owing w) :=
  ⟨fun h w => ⟨h.bodies w, h.ahead w⟩, fun h => ⟨fun w => (h w).1, fun w => (h w).2⟩⟩

theorem promptThread_idle {thread : Thread σ τ ι}
    (h : ∀ m locals rest, thread ≠ .inside m locals rest) : PromptThread method thread false :=
  ⟨fun m locals rest he => absurd he (h m locals rest), fun he => by cases he⟩

theorem promptThread_notified {thread : Thread σ τ ι} {owing : Bool}
    (h : PromptThread method thread owing) : PromptThread method thread.notified owing := by
  cases thread with
  | asleep m =>
      refine ⟨fun _ _ _ he => (by cases he), ?_⟩
      intro he
      obtain ⟨_, _, _, hc, _⟩ := h.2 he
      cases hc
  | outside | blocked | testing | inside => exact h

theorem prompt_moved (hs : Prompt method s) (hw : PromptThread method (t.threads w) (t.owing w))
    (hthreads : ∀ v, v ≠ w →
      t.threads v = s.threads v ∨ t.threads v = (s.threads v).notified)
    (howing : ∀ v, v ≠ w → t.owing v = s.owing v) : Prompt method t := by
  rw [prompt_iff]
  intro v
  by_cases hv : v = w
  · rw [hv]
    exact hw
  · have hv' := prompt_iff.mp hs v
    rw [howing v hv]
    rcases hthreads v hv with h | h
    · rw [h]
      exact hv'
    · rw [h]
      exact promptThread_notified hv'

theorem Prompt.idle (hs : Prompt method s)
    (hw : ∀ m locals rest, s.threads w ≠ .inside m locals rest) : s.owing w = false := by
  rw [Bool.eq_false_iff]
  intro h
  obtain ⟨m, locals, rest, he, -⟩ := hs.ahead w h
  exact hw m locals rest he

theorem stepped_prompt (h : Stepped method s w a t)
    (hbody : ∀ m, Announcing method (method m).owes (method m).body)
    (howes : ∀ m, (method m).owes = true → Instr.notifyAll ∈ (method m).body)
    (hs : Prompt method s) : Prompt method t := by
  cases h with
  | call m hw | wake hw | expire hw | acquire hw | sleep hw =>
      have hidle := hs.idle (w := w) (by simp [hw])
      refine prompt_moved (w := w) hs ?_ (fun v hv => .inl (goto_threads_of_ne _ hv _))
        fun _ _ => rfl
      rw [goto_threads_self]
      change PromptThread method _ (s.owing w)
      rw [hidle]
      exact promptThread_idle (by simp)
  | notify hw =>
      refine prompt_moved (w := w) hs ?_ (fun v _ => .inr rfl)
        fun v hv => Function.update_of_ne hv ..
      have hnone : (s.notifyAll w).owing w = false := Function.update_self ..
      rw [notifyAll_threads, hw, hnone]
      exact promptThread_idle (by simp [Thread.notified])
  | @enter m expired hw hc =>
      have hidle := hs.idle (w := w) (by simp [hw])
      refine prompt_moved (w := w) hs ?_ (fun v hv => .inl (goto_threads_of_ne _ hv _))
        fun v hv => Function.update_of_ne hv ..
      rw [goto_threads_self]
      simp only [State.goto, Function.update_self, hidle, Bool.false_or]
      refine ⟨?_, ?_⟩
      · intro m' locals rest he
        cases he
        exact hbody m
      · intro he
        exact ⟨m, _, _, rfl, howes m he⟩
  | @run m locals f rest hw =>
      refine prompt_moved (w := w) hs ?_ (fun v hv => .inl (goto_threads_of_ne _ hv _))
        fun _ _ => rfl
      rw [goto_threads_self]
      refine ⟨?_, ?_⟩
      · intro m' locals' rest' he
        cases he
        exact (hs.bodies w m locals _ hw).2
      · intro he
        obtain ⟨_, _, _, hin, hmem⟩ := hs.ahead w he
        cases hw.symm.trans hin
        exact ⟨m, _, rest, rfl, by simpa using hmem⟩
  | @notifyAll m locals rest hw =>
      refine prompt_moved (w := w) hs ?_ ?_ fun v hv => Function.update_of_ne hv ..
      · have hnone : ((s.notifyAll w).goto w (.inside m locals rest)).owing w = false :=
          Function.update_self ..
        rw [goto_threads_self, hnone]
        refine ⟨?_, fun he => by cases he⟩
        intro m' locals' rest' he
        cases he
        exact hs.bodies w m locals _ hw
      · intro v hv
        rw [goto_threads_of_ne _ hv]
        exact .inr rfl
  | @leave m locals hw =>
      have hidle : s.owing w = false := by
        rw [Bool.eq_false_iff]
        intro h
        obtain ⟨_, _, _, hin, hmem⟩ := hs.ahead w h
        cases hw.symm.trans hin
        cases hmem
      refine prompt_moved (w := w) hs ?_ (fun v hv => .inl (goto_threads_of_ne _ hv _))
        fun _ _ => rfl
      rw [goto_threads_self]
      change PromptThread method _ (s.owing w)
      rw [hidle]
      exact promptThread_idle (by simp)

theorem start_prompt (shared : σ) : Prompt method (start shared) :=
  ⟨fun _ _ _ _ h => (by cases h), fun _ h => (by cases h)⟩

/-- A sleeper whose condition holds has the thread with the mutex in front of its
notification. -/
theorem sleeper_waits {shared : σ} {tr : List (Nat × Action ι)}
    (hbody : ∀ m, Announcing method (method m).owes (method m).body)
    (howes : ∀ m, (method m).owes = true → Instr.notifyAll ∈ (method m).body)
    (hr : Runs.run (step method) (start shared) tr = some t) {m : ι}
    (hw : t.threads w = .asleep m) :
    (method m).condition t.shared = false ∨
      ∃ v m' locals rest, t.mutex = some v ∧ t.threads v = .inside m' locals rest ∧
        Instr.notifyAll ∈ rest := by
  have hinv := run_invariant
    (I := fun s => Exclusive s ∧ Prompt method s ∧ Awake method s)
    ?_ hr ⟨start_exclusive shared, start_prompt shared, start_awake shared⟩
  · obtain ⟨hexclusive, hprompt, hawake⟩ := hinv
    refine (hawake w m hw).imp_right ?_
    rintro ⟨v, hv⟩
    obtain ⟨m', locals, rest, hin, hmem⟩ := hprompt.ahead v hv
    exact ⟨v, m', locals, rest, (hexclusive v).mp (by rw [hin]; rfl), hin, hmem⟩
  · rintro s ⟨v, a⟩ u h ⟨hexclusive, hprompt, hawake⟩
    have hstepped := threadStep_stepped h
    refine ⟨stepped_exclusive hstepped hexclusive, stepped_prompt hstepped hbody howes hprompt,
      stepped_awake hstepped ?_ hawake⟩
    intro m' locals f rest hin
    exact (hprompt.bodies v m' locals _ hin).1.imp_right fun h => h _

end Wakeups

end Library.Monitors
