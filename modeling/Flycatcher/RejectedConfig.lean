import Flycatcher.Transformers
import Flycatcher.Workers

namespace Flycatcher.RejectedConfig

open Library.TextStreams Library.Runs Library.StopFlags Polling Transformers Workers

/-- Where the main thread is, from the call of transformers on: in the loop over
the entries, building processors, in Connector::start with so many threads
started, waiting for them, or ended by an exception. -/
inductive MainPoint
  | transforms (entries : List TransformEntry) (building : Building)
  | processors (transformers : List Transformer) (built : Nat)
  | connector (started : Nat)
  | joining
  | terminated

structure State where
  main : MainPoint
  pending : Bool
  directoryPoller : DirectoryPoller
  workers : Workers.State

inductive Label
  | main
  | interrupt
  | deliver
  | poll (events : List InotifyEvent)
  | poller (action : PollerAction)
  | processor (w : Nat) (action : ProcessorAction)

def State.started (n : Nat) (s : State) : Nat :=
  match s.main with
  | .connector started => started
  | .joining => n + 1
  | .transforms _ _ | .processors _ _ | .terminated => 0

def State.mainStep (n : Nat) (s : State) : Option State :=
  match s.main with
  | .transforms (entry :: entries) building =>
      match addEntry building entry with
      | none => some { s with main := .terminated }
      | some building' =>
          some { s with
            main := .transforms entries building'
            pending := s.pending || decide (building.sigints < building'.sigints) }
  | .transforms [] building =>
      some { s with
        main := .processors (if building.lastPtr.isNull then [] else [building.lastPtr]) 0 }
  | .processors transformers built =>
      if built < n then some { s with main := .processors transformers (built + 1) }
      else some { s with main := .connector 0 }
  | .connector started =>
      if started < n + 1 then some { s with main := .connector (started + 1) }
      else some { s with main := .joining }
  | .joining | .terminated => none

def State.workersStep (n : Nat) (s : State) (l : Workers.Label) : Option State :=
  (Workers.step n s.workers l).map fun workers => { s with workers }

/-- The signal thread waits for one signal. -/
def step (n : Nat) (s : State) : Label → Option State
  | .main => s.mainStep n
  | .interrupt => some { s with pending := true }
  | .deliver =>
      if s.pending ∧ s.workers.shutdownRequested = false then s.workersStep n .signal else none
  | .poll events =>
      let (r, directoryPoller) := s.directoryPoller.poll events
      if 0 < s.started n then ({ s with directoryPoller }).workersStep n (.poller (.poll r)) else none
  | .poller (.poll _) => none
  | .poller action => if 0 < s.started n then s.workersStep n (.poller action) else none
  | .processor w action =>
      if w + 1 < s.started n then s.workersStep n (.processor w action) else none

def init (entries : List TransformEntry) (dir : Str) (names : List Str) : State :=
  ⟨.transforms entries ⟨.nullptr, 0⟩, false, .construct dir names, Workers.init⟩

def registeredTypes : List Str := [voidType, unuuidType, mapType, appendType, prependType, setType]

def Rejected (entries : List TransformEntry) : Prop :=
  ∃ entry ∈ entries, ∃ type, entry.type = some type ∧ type ∉ registeredTypes

def Label.testsFlag : Label → Bool
  | .processor _ .test => true
  | _ => false

/-- No SIGINT is waiting for the signal thread when a processor tests the flag. -/
def SignalFirst (s : State) (l : Label) : Prop :=
  l.testsFlag = true → s.pending = true → s.workers.shutdownRequested = true

instance (s : State) (l : Label) : Decidable (SignalFirst s l) :=
  inferInstanceAs (Decidable (_ → _ → _))

def Outside : Position ProcessorPoint → Prop
  | .head | .left => True
  | .waiting | .working _ => False

def SignalDue (s : State) : Prop :=
  match s.main with
  | .transforms entries _ =>
      Rejected entries ∨ s.pending = true ∨ s.workers.shutdownRequested = true
  | .processors _ _ | .connector _ | .joining =>
      s.pending = true ∨ s.workers.shutdownRequested = true
  | .terminated => True

structure Quiet (s : State) : Prop where
  due : SignalDue s
  outside : ∀ w, Outside (s.workers.processors w)

theorem getInstance_unregistered {type : Str} (h : type ∉ registeredTypes) (column : Str)
    (wrapped : Transformer) : getInstance type column wrapped = .nullptr := by
  simp only [registeredTypes, List.mem_cons, List.not_mem_nil, or_false, not_or] at h
  obtain ⟨hvoid, hunuuid, hmap, happend, hprepend, hset⟩ := h
  rw [getInstance, if_neg hvoid, if_neg hunuuid, if_neg hmap, if_neg happend, if_neg hprepend,
    if_neg hset]

theorem addEntry_unregistered {building building' : Building} {entry : TransformEntry} {type : Str}
    (htype : entry.type = some type) (hnot : type ∉ registeredTypes)
    (h : addEntry building entry = some building') : building.sigints < building'.sigints := by
  rw [addEntry, htype] at h
  cases hcolumn : entry.column with
  | none =>
      rw [hcolumn] at h
      cases h
  | some column =>
      simp only [hcolumn, Option.bind_eq_bind, Option.bind_some,
        getInstance_unregistered hnot column] at h
      cases h
      exact Nat.lt_succ_self _

theorem signalDue_mono {s t : State} (h : SignalDue s) (hmain : t.main = s.main)
    (hpending : s.pending = true → t.pending = true)
    (hshutdown : s.workers.shutdownRequested = true → t.workers.shutdownRequested = true) :
    SignalDue t := by
  rw [SignalDue] at h ⊢
  rw [hmain]
  cases hs : s.main with
  | transforms =>
      rw [hs] at h
      exact h.imp id (Or.imp hpending hshutdown)
  | processors | connector | joining =>
      rw [hs] at h
      exact h.imp hpending hshutdown
  | terminated => trivial

theorem mainStep_due {n : Nat} {s t : State} (h : s.mainStep n = some t) (hs : SignalDue s) :
    SignalDue t ∧ t.workers = s.workers := by
  rw [SignalDue] at hs
  rw [State.mainStep] at h
  cases hm : s.main with
  | transforms entries building =>
      simp only [hm] at h hs
      cases entries with
      | nil =>
          cases h
          refine ⟨hs.resolve_left ?_, rfl⟩
          rintro ⟨entry, he, -⟩
          cases he
      | cons entry entries =>
          cases hadd : addEntry building entry with
          | none =>
              simp only [hadd] at h
              cases h
              exact ⟨trivial, rfl⟩
          | some building' =>
              simp only [hadd] at h
              cases h
              refine ⟨?_, rfl⟩
              rcases hs with ⟨other, hmem, type, htype, hnot⟩ | hpending | hshutdown
              · rcases List.mem_cons.mp hmem with rfl | hmem
                · have hsigints := addEntry_unregistered htype hnot hadd
                  exact .inr (.inl (by simp [hsigints]))
                · exact .inl ⟨other, hmem, type, htype, hnot⟩
              · exact .inr (.inl (by simp [hpending]))
              · exact .inr (.inr hshutdown)
  | processors transformers built =>
      simp only [hm] at h hs
      split_ifs at h <;> cases h <;> exact ⟨hs, rfl⟩
  | connector started =>
      simp only [hm] at h hs
      split_ifs at h <;> cases h <;> exact ⟨hs, rfl⟩
  | joining | terminated =>
      simp only [hm] at h
      cases h

theorem poller_processors {n : Nat} {s t : Workers.State} {action : PollerAction}
    (h : Workers.step n s (.poller action) = some t) :
    t.processors = s.processors ∧ t.shutdownRequested = s.shutdownRequested := by
  rw [Workers.step] at h
  cases action with
  | test | wake =>
      obtain ⟨poller, -, rfl⟩ := Option.map_eq_some_iff.mp h
      exact ⟨rfl, rfl⟩
  | poll r =>
      rw [State.pollerStep] at h
      split at h <;> cases h
      exact ⟨rfl, rfl⟩
  | enqueue =>
      rw [State.pollerStep] at h
      split at h
      · split_ifs at h <;> cases h <;> exact ⟨rfl, rfl⟩
      · cases h

theorem poller_quiet {n : Nat} {s t : State} {action : PollerAction}
    (h : s.workersStep n (.poller action) = some t) (hs : Quiet s) : Quiet t := by
  obtain ⟨workers, hw, rfl⟩ := Option.map_eq_some_iff.mp h
  obtain ⟨hprocessors, hflag⟩ := poller_processors hw
  exact ⟨signalDue_mono hs.due rfl id hflag.trans, hprocessors ▸ hs.outside⟩

theorem processorStep_outside {s t : Workers.State} {w : Nat} {action : ProcessorAction}
    (h : s.processorStep w action = some t) (hs : ∀ v, Outside (s.processors v)) :
    action = .test ∧ t = s.setProcessor w (if s.shutdownRequested then .left else .waiting) := by
  have hw := hs w
  cases action with
  | test =>
      obtain ⟨position, ht, rfl⟩ := Option.map_eq_some_iff.mp h
      cases hp : s.processors w with
      | head =>
          rw [hp] at ht
          cases ht
          exact ⟨rfl, rfl⟩
      | waiting | working | left =>
          rw [hp] at ht
          cases ht
  | wake =>
      obtain ⟨position, hwake, rfl⟩ := Option.map_eq_some_iff.mp h
      cases hp : s.processors w with
      | waiting =>
          rw [hp] at hw
          exact hw.elim
      | head | working | left =>
          rw [hp] at hwake
          cases hwake
  | dequeue | handleReturns =>
      rw [State.processorStep] at h
      split at h
      next hp =>
          rw [hp] at hw
          exact hw.elim
      next => cases h

theorem due_started {n : Nat} {s : State} (hs : SignalDue s) (hstarted : 0 < s.started n) :
    s.pending = true ∨ s.workers.shutdownRequested = true := by
  rw [State.started] at hstarted
  rw [SignalDue] at hs
  cases hm : s.main with
  | transforms | processors | terminated =>
      rw [hm] at hstarted
      exact absurd hstarted (Nat.lt_irrefl 0)
  | connector | joining =>
      rw [hm] at hs
      exact hs

theorem step_quiet (n : Nat) (s : State) (l : Label) (t : State) (h : step n s l = some t)
    (hfirst : SignalFirst s l) (hs : Quiet s) : Quiet t := by
  cases l with
  | main =>
      obtain ⟨hdue, hworkers⟩ := mainStep_due h hs.due
      exact ⟨hdue, hworkers ▸ hs.outside⟩
  | interrupt =>
      cases h
      exact ⟨signalDue_mono hs.due rfl (fun _ => rfl) id, hs.outside⟩
  | deliver =>
      rw [step] at h
      split_ifs at h
      cases h
      exact ⟨signalDue_mono hs.due rfl id (fun _ => rfl), hs.outside⟩
  | poll events =>
      simp only [step] at h
      split_ifs at h
      have hs' : Quiet { s with directoryPoller := (s.directoryPoller.poll events).2 } :=
        ⟨hs.due, hs.outside⟩
      exact poller_quiet h hs'
  | poller action =>
      cases action with
      | poll r => cases h
      | test | wake | enqueue =>
          simp only [step] at h
          split_ifs at h
          exact poller_quiet h hs
  | processor w action =>
      rw [step] at h
      split_ifs at h with hstarted
      obtain ⟨workers, hw, rfl⟩ := Option.map_eq_some_iff.mp h
      rw [Workers.step] at hw
      split_ifs at hw
      obtain ⟨rfl, rfl⟩ := processorStep_outside hw hs.outside
      refine ⟨signalDue_mono hs.due rfl id id, ?_⟩
      have hflag : s.workers.shutdownRequested = true :=
        (due_started hs.due (Nat.lt_of_le_of_lt (Nat.zero_le _) hstarted)).elim (hfirst rfl) id
      obtain ⟨hself, hothers⟩ := setProcessor_processors s.workers w
        (if s.workers.shutdownRequested then .left else .waiting)
      intro v
      by_cases hv : v = w
      · subst hv
        rw [hself, hflag]
        trivial
      · rw [hothers v hv]
        exact hs.outside v

/-- With a rejected configuration nothing is handled in any run in which the
signal thread is always ahead of the processors. -/
theorem rejected_handles_nothing {n : Nat} {entries : List TransformEntry} {dir : Str}
    {names : List Str} {tr : List Label} {t : State} (hrejected : Rejected entries)
    (hr : run (step n) (init entries dir names) tr = some t)
    (hfirst : Along (step n) SignalFirst (init entries dir names) tr) (w : Nat) (d : PollResult) :
    t.workers.processors w ≠ .working (.handle d) := by
  have hstart : Quiet (init entries dir names) := ⟨.inl hrejected, fun _ => trivial⟩
  have hquiet := run_invariant_along (step_quiet n) hfirst hr hstart
  intro hw
  have h := hquiet.outside w
  rw [hw] at h
  exact h

def unknownEntry : TransformEntry := ⟨some ['c'], some ['u', 'p', 'p', 'e', 'r'], [], none, none⟩

def startUp : List Label := [.main, .main, .main, .main, .main, .main]

theorem unknownEntry_rejected : Rejected [unknownEntry] :=
  ⟨unknownEntry, List.mem_cons_self, ['u', 'p', 'p', 'e', 'r'], rfl, by decide⟩

theorem rejected_handles_nothing_delivered : ∃ t,
    run (step 1) (init [unknownEntry] ['d'] [['a']]) (startUp ++ [.deliver, .processor 0 .test]) =
      some t ∧ ∀ w d, t.workers.processors w ≠ .working (.handle d) := by
  have hr : ∃ t, run (step 1) (init [unknownEntry] ['d'] [['a']])
      (startUp ++ [.deliver, .processor 0 .test]) = some t := ⟨_, rfl⟩
  obtain ⟨t, ht⟩ := hr
  exact ⟨t, ht, rejected_handles_nothing unknownEntry_rejected ht (by decide)⟩

/-- The signal thread is slow, and the file in the directory is handled. -/
theorem rejected_handles : ∃ tr t, run (step 1) (init [unknownEntry] ['d'] [['a']]) tr = some t ∧
    t.workers.processors 0 = .working (.handle ⟨['d', '/', 'a']⟩) := by
  refine ⟨startUp ++ [.poller .test, .poller .wake, .poll [], .poller .enqueue, .processor 0 .test,
    .processor 0 .wake, .processor 0 .dequeue], _, rfl, rfl⟩

end Flycatcher.RejectedConfig
