import Flycatcher.ActiveProcessors
import Flycatcher.Library.Monitors

namespace Flycatcher.LogWait

open Library.Runs Library.Monitors Library.Statements HandleCall
open ActiveProcessors (Activity perform)

/-- What is done under the mutex of the log: the updates of the counter, and the
wait of the LogProcessor, which is for an hour. -/
inductive Section
  | fetchAdd (m : Int)
  | wait

/-- Only a decrement has a notify_all behind it, when the mutex is free again. -/
def method : Section → Method (BitVec 64) Unit
  | .fetchAdd m => {
      condition := fun _ => true
      timed := false
      locals := ()
      body := [.run fun x => (perform (.fetchAdd m) x.1, x.2)]
      owes := m = -1 }
  | .wait => {
      condition := fun activeProcessors => activeProcessors = 0
      timed := true
      locals := ()
      body := []
      owes := false }

abbrev Monitor := Library.Monitors.State (BitVec 64) Unit Section

abbrev Place := Thread (BitVec 64) Unit Section

structure State where
  monitor : Monitor
  workers : Nat → Activity

inductive Label
  | call (w : Nat) (input : Input)
  | act (w : Nat)
  | wait
  | lock (w : Nat) (a : Action Section)

def State.advance (s : State) (w : Nat) : Nat → Activity :=
  Function.update s.workers w
    ⟨(s.workers w).past ++ (s.workers w).future.head?.toList, (s.workers w).future.tail⟩

def State.act (s : State) (w : Nat) (event : Event) : Option State :=
  match event with
  | .fetchAdd m => (threadStep method s.monitor w (.call (.fetchAdd m))).map fun monitor =>
      { s with monitor }
  | .notifyAll =>
      (threadStep method s.monitor w .notify).map fun monitor => ⟨monitor, s.advance w⟩
  | .log _ _ | .rename _ _ | .attempt _ | .ignore _ | .excCount _ =>
      match s.monitor.threads w with
      | .outside => some { s with workers := s.advance w }
      | _ => none

def State.lock (s : State) (w : Nat) : Action Section → Option State
  | .call _ | .notify => none
  | .exec => (threadStep method s.monitor w .exec).map fun monitor => ⟨monitor, s.advance w⟩
  | a => (threadStep method s.monitor w a).map fun monitor => { s with monitor }

/-- So many processors, and the LogProcessor as one thread more. The write of a row that
throws is taken to return. -/
def step (n : Nat) (s : State) : Label → Option State
  | .call w input =>
      if w < n ∧ (s.workers w).inHandle = false then
        some { s with workers := Function.update s.workers w ⟨[], (handle skip input).2.events⟩ }
      else none
  | .act w =>
      if w < n then (s.workers w).future.head?.bind (s.act w) else none
  | .wait => (threadStep method s.monitor n (.call .wait)).map fun monitor => { s with monitor }
  | .lock w a => if w ≤ n then s.lock w a else none

def init : State := ⟨start 0, fun _ => ⟨[], []⟩⟩

def State.abstract (s : State) : ActiveProcessors.State := ⟨s.monitor.shared, s.workers⟩

def Announced (future : List Event) : Prop :=
  ∀ before m after, future = before ++ .fetchAdd m :: after → Event.notifyAll ∈ after

inductive Located (future : List Event) (owing : Bool) : Place → Prop
  | outside : Located future owing .outside
  | blocked {m : Int} {rest : List Event} (h : future = .fetchAdd m :: rest) :
      Located future owing (.blocked (.fetchAdd m) false)
  | testing {m : Int} {rest : List Event} (h : future = .fetchAdd m :: rest) :
      Located future owing (.testing (.fetchAdd m) false)
  | entered {m : Int} {rest : List Event} (h : future = .fetchAdd m :: rest)
      (howing : m = -1 → owing = true) :
      Located future owing
        (.inside (.fetchAdd m) () [.run fun x => (perform (.fetchAdd m) x.1, x.2)])
  | updated {m : Int} (h : future ≠ []) : Located future owing (.inside (.fetchAdd m) () [])

inductive Waiting : Place → Prop
  | outside : Waiting .outside
  | blocked (expired : Bool) : Waiting (.blocked .wait expired)
  | testing (expired : Bool) : Waiting (.testing .wait expired)
  | asleep : Waiting (.asleep .wait)
  | through : Waiting (.inside .wait () [])

structure Regular (n : Nat) (s : State) : Prop where
  exact : ActiveProcessors.Exact n s.abstract
  exclusive : Exclusive s.monitor
  awake : Awake method s.monitor
  announced : ∀ w, Announced (s.workers w).future
  owing : ∀ w, s.monitor.owing w = true → Event.notifyAll ∈ (s.workers w).future
  processors : ∀ w < n, Located (s.workers w).future (s.monitor.owing w) (s.monitor.threads w)
  logProcessor : Waiting (s.monitor.threads n)
  others : ∀ w, n < w → s.monitor.threads w = .outside
  idle : ∀ w, n ≤ w → (s.workers w).future = []

theorem announced_tail {event : Event} {future : List Event} (h : Announced (event :: future)) :
    Announced future := by
  intro before m after he
  exact h (event :: before) m after (congrArg (event :: ·) he)

theorem announced_append {front back : List Event} (hback : Announced back)
    (hmem : Event.notifyAll ∈ back) : Announced (front ++ back) := by
  induction front with
  | nil => exact hback
  | cons event front ih =>
      intro before m after he
      cases before with
      | nil =>
          obtain ⟨-, rfl⟩ := List.cons.inj he
          exact List.mem_append_right front hmem
      | cons x before =>
          obtain ⟨-, he⟩ := List.cons.inj he
          exact ih before m after he

theorem handle_announced (input : Input) : Announced (handle skip input).2.events := by
  obtain ⟨d, renamed, file, days⟩ := input
  have hend : Announced [.fetchAdd (-1), .notifyAll] := by
    intro before m after he
    cases before with
    | nil =>
        obtain ⟨-, rfl⟩ := List.cons.inj he
        exact List.mem_singleton_self _
    | cons x before =>
        obtain ⟨-, he⟩ := List.cons.inj he
        cases before with
        | nil => cases he
        | cons y before => simp at he
  have hmem : Event.notifyAll ∈ [.fetchAdd (-1), .notifyAll] := by simp
  cases renamed with
  | false =>
      rw [handle_missing]
      exact @announced_append [_, _, _, _] _ hend hmem
  | true =>
      obtain ⟨t, -, hhandle⟩ := handle_renamed d file days
      have happend : t.events ++ .rename (FileNames.inprogress d) (FileNames.done d) ::
          [.log .info (doneWith d t.oldCount days), .fetchAdd (-1), .notifyAll] =
          (t.events ++ [.rename (FileNames.inprogress d) (FileNames.done d),
            .log .info (doneWith d t.oldCount days)]) ++ [.fetchAdd (-1), .notifyAll] := by
        simp
      rw [hhandle, left_events, happend]
      exact announced_append hend hmem

variable {n : Nat} {s t : State} {w : Nat}

theorem regular_moved (hs : Regular n s) {monitor : Monitor} (hw : w ≤ n)
    (hexclusive : Exclusive monitor) (hawake : Awake method monitor)
    (hshared : monitor.shared = s.monitor.shared)
    (hothers : ∀ v, v ≠ w →
      monitor.threads v = s.monitor.threads v ∧ monitor.owing v = s.monitor.owing v)
    (hprocessor : w < n → Located (s.workers w).future (monitor.owing w) (monitor.threads w))
    (hlogProcessor : w = n → Waiting (monitor.threads w))
    (howing : monitor.owing w = true → Event.notifyAll ∈ (s.workers w).future) :
    Regular n { s with monitor } := by
  refine ⟨?_, hexclusive, hawake, hs.announced, ?_, ?_, ?_, ?_, hs.idle⟩
  · have habstract : State.abstract { s with monitor } = s.abstract := by
      rw [State.abstract, State.abstract, hshared]
    rw [habstract]
    exact hs.exact
  · intro v hv
    by_cases hvw : v = w
    · rw [hvw] at hv ⊢
      exact howing hv
    · rw [(hothers v hvw).2] at hv
      exact hs.owing v hv
  · intro v hv
    by_cases hvw : v = w
    · rw [hvw] at hv ⊢
      exact hprocessor hv
    · rw [(hothers v hvw).1, (hothers v hvw).2]
      exact hs.processors v hv
  · by_cases hnw : n = w
    · rw [hnw]
      exact hlogProcessor hnw.symm
    · rw [(hothers n hnw).1]
      exact hs.logProcessor
  · intro v hv
    rw [(hothers v (by omega)).1]
    exact hs.others v hv

theorem regular_goto (hs : Regular n s) {monitor : Monitor} {place : Place} (hw : w ≤ n)
    (hexclusive : Exclusive (monitor.goto w place)) (hawake : Awake method (monitor.goto w place))
    (hshared : monitor.shared = s.monitor.shared) (hthreads : monitor.threads = s.monitor.threads)
    (howing : monitor.owing = s.monitor.owing)
    (hprocessor : w < n → Located (s.workers w).future (s.monitor.owing w) place)
    (hlogProcessor : w = n → Waiting place) :
    Regular n { s with monitor := monitor.goto w place } := by
  apply regular_moved hs hw hexclusive hawake hshared
  · intro v hv
    rw [goto_threads_of_ne _ hv, hthreads]
    exact ⟨rfl, congrFun howing v⟩
  · rw [goto_threads_self]
    change w < n → Located _ (monitor.owing w) _
    rw [howing]
    exact hprocessor
  · rw [goto_threads_self]
    exact hlogProcessor
  · change monitor.owing w = true → _
    rw [howing]
    exact hs.owing w

/-- No step but exec and notify touches the counter or wakes a sleeper. -/
theorem stepped_regular (hs : Regular n s) {monitor : Monitor} {a : Action Section} (hw : w ≤ n)
    (h : Stepped method s.monitor w a monitor) (hexec : a ≠ .exec) (hnotify : a ≠ .notify)
    (hcall : ∀ m, a = .call m →
      (w < n → ∃ k rest, m = .fetchAdd k ∧ (s.workers w).future = .fetchAdd k :: rest) ∧
        (w = n → m = .wait)) : Regular n { s with monitor } := by
  have hexclusive := stepped_exclusive h hs.exclusive
  have hawake : Awake method monitor := by
    apply stepped_awake h ?_ hs.awake
    intro m locals f rest hin
    cases h with
    | run | notifyAll => exact absurd rfl hexec
    | notify => exact absurd rfl hnotify
    | call _ hw' | acquire hw' | enter hw' | sleep hw' | wake hw' | expire hw' | leave hw' =>
        rw [hin] at hw'
        cases hw'
  cases h with
  | run | notifyAll => exact absurd rfl hexec
  | notify => exact absurd rfl hnotify
  | call m hthread =>
      obtain ⟨hlt, heq⟩ := hcall m rfl
      apply regular_goto hs hw hexclusive hawake rfl rfl rfl
      · intro hwn
        obtain ⟨k, rest, rfl, hf⟩ := hlt hwn
        exact .blocked hf
      · intro hwn
        rw [heq hwn]
        exact .blocked false
  | acquire hthread hm =>
      apply regular_goto hs hw hexclusive hawake rfl rfl rfl
      · intro hwn
        have hlocated := hthread ▸ hs.processors w hwn
        cases hlocated with
        | blocked hf => exact .testing hf
      · rintro rfl
        have hwaiting := hthread ▸ hs.logProcessor
        cases hwaiting with
        | blocked => exact .testing _
  | @enter m expired hthread hc =>
      apply regular_moved hs hw hexclusive hawake rfl
      · intro v hv
        exact ⟨goto_threads_of_ne _ hv _, Function.update_of_ne hv ..⟩
      · intro hwn
        have hlocated := hthread ▸ hs.processors w hwn
        rw [goto_threads_self]
        cases hlocated with
        | testing hf =>
            refine .entered hf ?_
            rintro rfl
            simp [State.goto, method]
      · rintro rfl
        have hwaiting := hthread ▸ hs.logProcessor
        rw [goto_threads_self]
        cases hwaiting with
        | testing => exact .through
      · intro hv
        simp only [State.goto, Function.update_self, Bool.or_eq_true] at hv
        rcases hv with hv | hv
        · exact hs.owing w hv
        · rcases Nat.lt_or_eq_of_le hw with hwn | rfl
          · have hlocated := hthread ▸ hs.processors w hwn
            cases hlocated with
            | @testing k rest hf =>
                rw [hf]
                exact List.mem_cons_of_mem _ (hs.announced w [] k rest hf)
          · have hwaiting := hthread ▸ hs.logProcessor
            cases hwaiting with
            | testing => cases hv
  | sleep hthread hc =>
      apply regular_goto hs hw hexclusive hawake rfl rfl rfl
      · intro hwn
        have hlocated := hthread ▸ hs.processors w hwn
        cases hlocated with
        | testing hf => cases hc
      · rintro rfl
        have hwaiting := hthread ▸ hs.logProcessor
        cases hwaiting with
        | testing => exact .asleep
  | wake hthread =>
      apply regular_goto hs hw hexclusive hawake rfl rfl rfl
      · intro hwn
        have hlocated := hthread ▸ hs.processors w hwn
        cases hlocated
      · rintro rfl
        have hwaiting := hthread ▸ hs.logProcessor
        cases hwaiting with
        | asleep => exact .blocked false
  | expire hthread ht =>
      apply regular_goto hs hw hexclusive hawake rfl rfl rfl
      · intro hwn
        have hlocated := hthread ▸ hs.processors w hwn
        cases hlocated
      · rintro rfl
        have hwaiting := hthread ▸ hs.logProcessor
        cases hwaiting with
        | asleep => exact .blocked true
  | leave hthread =>
      exact regular_goto hs hw hexclusive hawake rfl rfl rfl (fun _ => .outside) fun _ => .outside

theorem advance_abstract {event : Event} {future : List Event} {monitor : Monitor} (hw : w < n)
    (hf : (s.workers w).future = event :: future)
    (hshared : monitor.shared = perform event s.monitor.shared) :
    ActiveProcessors.step n s.abstract (.act w) =
      some (State.abstract ⟨monitor, s.advance w⟩) := by
  simp [ActiveProcessors.step, State.abstract, State.advance, hf, hw, hshared]

theorem notified_waiting {place : Place} (h : Waiting place) : Waiting place.notified := by
  cases h with
  | asleep => exact .blocked false
  | outside | blocked | testing | through => constructor

theorem notified_located {future : List Event} {owing : Bool} {place : Place}
    (h : Located future owing place) : Located future owing place.notified := by
  cases h with
  | outside => exact .outside
  | blocked hf => exact .blocked hf
  | testing hf => exact .testing hf
  | entered hf howing => exact .entered hf howing
  | updated hne => exact .updated hne

theorem regular_advanced (hs : Regular n s) {monitor : Monitor} {event : Event} {future : List Event}
    (hw : w < n) (hf : (s.workers w).future = event :: future) (hexclusive : Exclusive monitor)
    (hawake : Awake method monitor) (hshared : monitor.shared = perform event s.monitor.shared)
    (hothers : ∀ v, v ≠ w → (monitor.threads v = s.monitor.threads v ∨
      monitor.threads v = (s.monitor.threads v).notified) ∧ monitor.owing v = s.monitor.owing v)
    (hprocessor : Located future (monitor.owing w) (monitor.threads w))
    (howing : monitor.owing w = true → Event.notifyAll ∈ future) :
    Regular n ⟨monitor, s.advance w⟩ := by
  have hself : (s.advance w w).future = future := by
    simp [State.advance, hf]
  have hother {v : Nat} (hv : v ≠ w) : s.advance w v = s.workers v := Function.update_of_ne hv ..
  refine ⟨(ActiveProcessors.step_exact hs.exact (advance_abstract hw hf hshared)).1, hexclusive,
    hawake, ?_, ?_, ?_, ?_, ?_, ?_⟩
  · intro v
    by_cases hv : v = w
    · rw [hv, hself]
      have hannounced := hs.announced w
      rw [hf] at hannounced
      exact announced_tail hannounced
    · simp only [hother hv]
      exact hs.announced v
  · intro v h
    by_cases hv : v = w
    · rw [hv] at h ⊢
      rw [hself]
      exact howing h
    · rw [(hothers v hv).2] at h
      simp only [hother hv]
      exact hs.owing v h
  · intro v hvn
    by_cases hv : v = w
    · rw [hv, hself]
      exact hprocessor
    · have hlocated := hs.processors v hvn
      simp only [hother hv, (hothers v hv).2]
      rcases (hothers v hv).1 with h | h
      · rw [h]
        exact hlocated
      · rw [h]
        exact notified_located hlocated
  · have hn : n ≠ w := Nat.ne_of_gt hw
    rcases (hothers n hn).1 with h | h
    · rw [h]
      exact hs.logProcessor
    · rw [h]
      exact notified_waiting hs.logProcessor
  · intro v hv
    have hvw : v ≠ w := by omega
    rcases (hothers v hvw).1 with h | h
    · rw [h, hs.others v hv]
    · rw [h, hs.others v hv]
      rfl
  · intro v hv
    have hvw : v ≠ w := by omega
    simp only [hother hvw]
    exact hs.idle v hv

/-- An update of the counter lets the LogProcessor go on only where it has a
notification behind it. -/
theorem exec_quiet (hs : Regular n s) (hn : n < 2 ^ 64) (hw : w < n) {m : Int} {future : List Event}
    (hf : (s.workers w).future = .fetchAdd m :: future)
    (howing : m = -1 → s.monitor.owing w = true) :
    s.monitor.owing w = true ∨
      Quiet method (fun x => (perform (.fetchAdd m) x.1, x.2)) (s.monitor.shared, ()) := by
  have hacted := (hs.exact.regular w).acted hf
  cases hacted with
  | other hevent => cases hevent
  | decrement hevent =>
      cases hevent
      exact .inl (howing rfl)
  | increment hevent hbefore hafter =>
      cases hevent
      right
      obtain ⟨hexact, hcount⟩ := ActiveProcessors.step_exact hs.exact
        (@advance_abstract n s w _ future
          { s.monitor with shared := perform (.fetchAdd 1) s.monitor.shared } hw hf rfl)
      have hadded : s.abstract.added (.act w) = 1 := by
        simp [ActiveProcessors.State.added, State.abstract, hf, Event.updated]
      rw [hadded, ← hexact.toNat hn] at hcount
      intro j hj
      cases j with
      | fetchAdd k => cases hj
      | wait =>
          apply decide_eq_false
          intro hzero
          have hnumber : (perform (.fetchAdd 1) s.monitor.shared).toNat = 0 :=
            congrArg BitVec.toNat hzero
          change ((perform (.fetchAdd 1) s.monitor.shared).toNat : Int) = _ at hcount
          omega

theorem call_regular (hs : Regular n s) {input : Input} (hw : w < n)
    (hidle : (s.workers w).inHandle = false) :
    Regular n { s with workers := Function.update s.workers w ⟨[], (handle skip input).2.events⟩ } := by
  have hnil : (s.workers w).future = [] := by simpa [Activity.inHandle] using hidle
  have howing : s.monitor.owing w = false := by
    rw [Bool.eq_false_iff]
    intro h
    have hmem := hs.owing w h
    rw [hnil] at hmem
    cases hmem
  have houtside : s.monitor.threads w = .outside := by
    have hlocated := hs.processors w hw
    rw [hnil] at hlocated
    generalize hthread : s.monitor.threads w = place at hlocated
    cases hlocated with
    | outside => rfl
    | blocked hf | testing hf | entered hf => cases hf
    | updated hne => exact absurd rfl hne
  have hstep : ActiveProcessors.step n s.abstract (.call w input) =
      some ⟨s.monitor.shared, Function.update s.workers w ⟨[], (handle skip input).2.events⟩⟩ :=
    if_pos ⟨hw, hidle⟩
  have hother {v : Nat} (hv : v ≠ w) :
      Function.update s.workers w ⟨[], (handle skip input).2.events⟩ v = s.workers v :=
    Function.update_of_ne hv ..
  refine ⟨(ActiveProcessors.step_exact hs.exact hstep).1, hs.exclusive, hs.awake, ?_, ?_, ?_,
    hs.logProcessor, hs.others, ?_⟩
  · intro v
    by_cases hv : v = w
    · rw [hv]
      simp only [Function.update_self]
      exact handle_announced input
    · simp only [hother hv]
      exact hs.announced v
  · intro v h
    by_cases hv : v = w
    · rw [hv, howing] at h
      cases h
    · simp only [hother hv]
      exact hs.owing v h
  · intro v hvn
    by_cases hv : v = w
    · rw [hv]
      simp only [houtside]
      exact .outside
    · simp only [hother hv]
      exact hs.processors v hvn
  · intro v hv
    simp only [hother (Nat.ne_of_gt (Nat.lt_of_lt_of_le hw hv))]
    exact hs.idle v hv

theorem notify_regular (hs : Regular n s) {future : List Event} (hw : w < n)
    (hf : (s.workers w).future = .notifyAll :: future) (hthread : s.monitor.threads w = .outside) :
    Regular n ⟨s.monitor.notifyAll w, s.advance w⟩ := by
  have hnone : (s.monitor.notifyAll w).owing w = false := Function.update_self ..
  apply regular_advanced hs hw hf (notifyAll_exclusive hs.exclusive w) ?_ rfl
  · intro v hv
    exact ⟨.inr rfl, Function.update_of_ne hv ..⟩
  · rw [notifyAll_threads, hthread]
    exact .outside
  · rw [hnone]
    intro h
    cases h
  · intro v m hv
    exact absurd hv (notifyAll_not_asleep s.monitor w v m)

theorem other_regular (hs : Regular n s) {event : Event} {future : List Event} (hw : w < n)
    (hf : (s.workers w).future = event :: future) (hupdated : event.updated = none)
    (hevent : event ≠ .notifyAll) (hthread : s.monitor.threads w = .outside) :
    Regular n ⟨s.monitor, s.advance w⟩ := by
  apply regular_advanced hs hw hf hs.exclusive hs.awake
    (ActiveProcessors.perform_other hupdated _).symm
  · intro v hv
    exact ⟨.inl rfl, rfl⟩
  · rw [hthread]
    exact .outside
  · intro h
    have hmem := hs.owing w h
    rw [hf] at hmem
    exact (List.mem_cons.mp hmem).resolve_left hevent.symm

theorem exec_regular (hs : Regular n s) (hn : n < 2 ^ 64) (hw : w ≤ n) {monitor : Monitor}
    (h : Stepped method s.monitor w .exec monitor) : Regular n ⟨monitor, s.advance w⟩ := by
  have hexclusive := stepped_exclusive h hs.exclusive
  rcases Nat.lt_or_eq_of_le hw with hwn | rfl
  · have hawake : Awake method monitor := by
      apply stepped_awake h ?_ hs.awake
      intro m locals f rest hin
      have hlocated := hin ▸ hs.processors w hwn
      cases hlocated with
      | entered hf howing => exact exec_quiet hs hn hwn hf howing
    cases h with
    | run hthread =>
        have hlocated := hthread ▸ hs.processors w hwn
        cases hlocated with
        | @entered m rest hf howing =>
            have hmem : Event.notifyAll ∈ rest := hs.announced w [] m rest hf
            apply regular_advanced hs hwn hf hexclusive hawake rfl
            · intro v hv
              exact ⟨.inl (goto_threads_of_ne _ hv _), rfl⟩
            · rw [goto_threads_self]
              exact .updated (List.ne_nil_of_mem hmem)
            · exact fun _ => hmem
    | notifyAll hthread =>
        have hlocated := hthread ▸ hs.processors w hwn
        cases hlocated
  · cases h with
    | run hthread | notifyAll hthread =>
        have hwaiting := hthread ▸ hs.logProcessor
        cases hwaiting

theorem act_regular (hs : Regular n s) {event : Event} {future : List Event} (hw : w < n)
    (hf : (s.workers w).future = event :: future) (h : s.act w event = some t) : Regular n t := by
  cases event with
  | fetchAdd m =>
      obtain ⟨monitor, hstep, rfl⟩ := Option.map_eq_some_iff.mp h
      apply stepped_regular hs (Nat.le_of_lt hw) (threadStep_stepped hstep) (by simp) (by simp)
      intro j hj
      cases hj
      exact ⟨fun _ => ⟨m, future, rfl, hf⟩, fun hwn => absurd hwn (Nat.ne_of_lt hw)⟩
  | notifyAll =>
      obtain ⟨monitor, hstep, rfl⟩ := Option.map_eq_some_iff.mp h
      have hstepped := threadStep_stepped hstep
      cases hstepped with
      | notify hthread => exact notify_regular hs hw hf hthread
  | log | rename | attempt | ignore | excCount =>
      rw [State.act] at h
      split at h
      next hthread =>
          cases h
          exact other_regular hs hw hf rfl (by simp) hthread
      next => cases h

theorem lock_regular (hs : Regular n s) (hn : n < 2 ^ 64) (hw : w ≤ n) {a : Action Section}
    (h : s.lock w a = some t) : Regular n t := by
  cases a with
  | call | notify => cases h
  | exec =>
      obtain ⟨monitor, hstep, rfl⟩ := Option.map_eq_some_iff.mp h
      exact exec_regular hs hn hw (threadStep_stepped hstep)
  | acquire | test | wake | expire | leave =>
      obtain ⟨monitor, hstep, rfl⟩ := Option.map_eq_some_iff.mp h
      exact stepped_regular hs hw (threadStep_stepped hstep) (by simp) (by simp) (by simp)

theorem step_regular (hn : n < 2 ^ 64) (s : State) (l : Label) (t : State)
    (h : step n s l = some t) (hs : Regular n s) : Regular n t := by
  cases l with
  | call w input =>
      obtain ⟨⟨hw, hidle⟩, he⟩ := Option.ite_none_right_eq_some.mp h
      cases he
      exact call_regular hs hw hidle
  | act w =>
      obtain ⟨hw, h⟩ := Option.ite_none_right_eq_some.mp h
      obtain ⟨event, hhead, hact⟩ := Option.bind_eq_some_iff.mp h
      obtain ⟨future, hf⟩ := List.head?_eq_some_iff.mp hhead
      exact act_regular hs hw hf hact
  | wait =>
      obtain ⟨monitor, hstep, rfl⟩ := Option.map_eq_some_iff.mp h
      apply stepped_regular hs (Nat.le_refl n) (threadStep_stepped hstep) (by simp) (by simp)
      intro m hm
      cases hm
      exact ⟨fun hlt => absurd hlt (Nat.lt_irrefl n), fun _ => rfl⟩
  | lock w a =>
      obtain ⟨hw, h⟩ := Option.ite_none_right_eq_some.mp h
      exact lock_regular hs hn hw h

theorem init_regular (n : Nat) : Regular n init := by
  refine ⟨ActiveProcessors.init_exact n, start_exclusive 0, start_awake 0, ?_, ?_,
    fun _ _ => .outside, .outside, fun _ _ => rfl, fun _ _ => rfl⟩
  · intro w before m after he
    cases before <;> cases he
  · intro w h
    cases h

theorem Regular.asleep (hs : Regular n s) (hn : n < 2 ^ 64)
    (h : s.monitor.threads n = .asleep .wait) : ∃ w < n, (s.workers w).inHandle = true := by
  rcases hs.awake n .wait h with hcondition | ⟨v, howing⟩
  · by_contra hnone
    push Not at hnone
    have hzero := hs.exact.counted_idle fun w hw => Bool.eq_false_iff.mpr (hnone w hw)
    rw [← hs.exact.toNat hn] at hzero
    exact absurd (BitVec.eq_of_toNat_eq hzero) (of_decide_eq_false hcondition)
  · have hmem := hs.owing v howing
    have hv : v < n := by
      by_contra hv
      rw [hs.idle v (Nat.le_of_not_lt hv)] at hmem
      cases hmem
    refine ⟨v, hv, ?_⟩
    rw [Activity.inHandle, Bool.not_eq_true', List.isEmpty_eq_false_iff]
    exact List.ne_nil_of_mem hmem

theorem Regular.free (hs : Regular n s) (hidle : ∀ w < n, (s.workers w).inHandle = false)
    (hn : (s.monitor.threads n).holds = false) : s.monitor.mutex = none := by
  cases hm : s.monitor.mutex with
  | none => rfl
  | some w =>
      have hholds := (hs.exclusive w).mpr hm
      rcases Nat.lt_trichotomy w n with hw | rfl | hw
      · have hnil : (s.workers w).future = [] := by simpa [Activity.inHandle] using hidle w hw
        have hlocated := hs.processors w hw
        rw [hnil] at hlocated
        generalize s.monitor.threads w = place at hlocated hholds
        cases hlocated with
        | outside => cases hholds
        | blocked hf | testing hf | entered hf => cases hf
        | updated hne => exact absurd rfl hne
      · rw [hn] at hholds
        cases hholds
      · rw [hs.others w hw] at hholds
        cases hholds

/-- The LogProcessor sleeps only while a processor is in handle. When none is, it
can go through its wait on its own, and it gets through before the hour is over
only where no call is counted. -/
theorem log_processor_wakes {labels : List Label} (hn : n < 2 ^ 64)
    (hr : run (step n) init labels = some s) :
    (s.monitor.threads n = .asleep .wait → ∃ w < n, (s.workers w).inHandle = true) ∧
      ((∀ w < n, (s.workers w).inHandle = false) →
        ∀ expired, s.monitor.threads n = .blocked .wait expired →
          ∃ t, run (step n) s [.lock n .acquire, .lock n .test, .lock n .leave] = some t ∧
            t.monitor.threads n = .outside ∧ t.workers = s.workers) ∧
      ∀ t, step n s (.lock n .test) = some t → s.monitor.threads n = .testing .wait false →
        t.monitor.threads n = .inside .wait () [] → s.abstract.counted n = 0 := by
  have hs := run_invariant (step_regular hn) hr (init_regular n)
  refine ⟨hs.asleep hn, ?_, ?_⟩
  · intro hidle expired hthread
    have hmutex := hs.free hidle (by rw [hthread]; rfl)
    have hzero : s.monitor.shared = 0 := by
      have h := hs.exact.counter
      rw [hs.exact.counted_idle hidle] at h
      exact h
    simp [run_cons, step, State.lock, threadStep, hthread, hmutex, State.tested, method, hzero,
      State.goto]
  · intro t ht hthread ht'
    simp only [step, Nat.le_refl, if_true, State.lock, threadStep, hthread, Option.map_some,
      Option.some.injEq] at ht
    subst ht
    rw [State.tested] at ht'
    split_ifs at ht' with hcondition
    · rw [Bool.or_false] at hcondition
      rw [← hs.exact.toNat hn]
      exact congrArg BitVec.toNat (of_decide_eq_true hcondition)
    · rw [goto_threads_self] at ht'
      cases ht'

def locked (w : Nat) : List Label :=
  [.act w, .lock w .acquire, .lock w .test, .lock w .exec, .lock w .leave]

def notifiedRun : List Label :=
  .call 0 ActiveProcessors.emptyFile :: locked 0 ++
    [.wait, .lock 1 .acquire, .lock 1 .test, .act 0, .act 0, .act 0, .act 0, .act 0] ++
    locked 0 ++ [.act 0]

theorem log_processor_wakes_notified : ∃ s, run (step 1) init notifiedRun = some s ∧
    ∃ t, run (step 1) s [.lock 1 .acquire, .lock 1 .test, .lock 1 .leave] = some t ∧
      t.monitor.threads 1 = .outside ∧ t.workers = s.workers := by
  have hr : ∃ s, run (step 1) init notifiedRun = some s ∧ (s.workers 0).inHandle = false ∧
      s.monitor.threads 1 = .blocked .wait false := ⟨_, rfl, rfl, rfl⟩
  obtain ⟨s, hs, hidle, hthread⟩ := hr
  refine ⟨s, hs, (log_processor_wakes (by decide) hs).2.1 ?_ false hthread⟩
  intro w hw
  rw [Nat.lt_one_iff.mp hw]
  exact hidle

end Flycatcher.LogWait
