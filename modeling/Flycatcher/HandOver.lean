import Flycatcher.Library.Runs
import Flycatcher.Polling
import Mathlib.Data.List.Basic

namespace Flycatcher.HandOver

open Library.TextStreams Library.Runs FileNames Polling

abbrev SafeQueue (T : Type) := List T

def SafeQueue.enqueue {T : Type} (queue : SafeQueue T) (t : T) : SafeQueue T := queue ++ [t]

/-- The part behind the wait, which has ended with an element in the queue or
with a timeout. -/
def SafeQueue.dequeueWithTimeout {T : Type} (queue : SafeQueue T) (val : T) : T × SafeQueue T :=
  match queue with
  | front :: queue => (front, queue)
  | [] => (val, [])

/-- The poller thread, the queue and what has been handed over. The fields from
appended on record the past: the paths that came into m_file_paths, that went
into the queue and came out of it, that were passed to handle by which
processor, and that a processor took out of the queue and dropped. -/
structure State where
  poller : DirectoryPoller
  result : Option PollResult
  queue : SafeQueue PollResult
  appended : List Str
  enqueued : List Str
  dequeued : List Str
  handled : List (Nat × Str)
  dropped : List Str

inductive Label
  | poll (events : List InotifyEvent)
  | enqueue
  | processor (w : Nat)

/-- What poll adds to m_file_paths. It reads no events while there is a backlog. -/
def appendedBy (poller : DirectoryPoller) (events : List InotifyEvent) : List Str :=
  if poller.filePaths.isEmpty then events.flatMap (addedPaths poller.dirToWatch) else []

/-- AbstractPoller::step after poll has returned. -/
def State.pollerStep (s : State) (r : PollResult) : State :=
  if !r.empty then
    { s with result := none, queue := s.queue.enqueue r, enqueued := s.enqueued ++ [r.get] }
  else { s with result := none }

/-- AbstractProcessor::step up to the call of handle. -/
def State.processorStep (s : State) (w : Nat) : State :=
  let (d, queue) := s.queue.dequeueWithTimeout ⟨[]⟩
  let out := if s.queue.isEmpty then [] else [d.get]
  let s := { s with queue, dequeued := s.dequeued ++ out }
  if !d.empty then { s with handled := s.handled ++ [(w, d.get)] }
  else { s with dropped := s.dropped ++ out }

def step (s : State) : Label → Option State
  | .poll events =>
      match s.result with
      | none =>
          let (r, poller) := s.poller.poll events
          some { s with poller, result := some r, appended := s.appended ++ appendedBy s.poller events }
      | some _ => none
  | .enqueue => s.result.map s.pollerStep
  | .processor w => some (s.processorStep w)

def init (dir : Str) (names : List Str) : State :=
  let poller := DirectoryPoller.construct dir names
  ⟨poller, none, [], poller.filePaths, [], [], [], []⟩

def State.carried (s : State) : List Str :=
  match s.result with
  | some r => if r.empty then [] else [r.get]
  | none => []

def State.whereabouts (s : State) : List Str :=
  s.poller.filePaths ++ s.carried ++ s.queue.map PollResult.get ++ s.handled.map Prod.snd

theorem perm_whereabouts {s : State} : s.appended.Perm s.whereabouts ↔
    ∀ path, s.appended.count path = s.poller.filePaths.count path + s.carried.count path +
      (s.queue.map PollResult.get).count path + (s.handled.map Prod.snd).count path := by
  simp only [List.perm_iff_count, State.whereabouts, List.count_append]

structure Conserved (s : State) : Prop where
  nonempty : (∀ path ∈ s.poller.filePaths, path ≠ []) ∧ ∀ r ∈ s.queue, r.empty = false
  appended : s.appended.Perm s.whereabouts
  order : s.enqueued = s.dequeued ++ s.queue.map PollResult.get
  dropped : s.dropped = []

theorem poll_eq_takeBack (poller : DirectoryPoller) (events : List InotifyEvent) :
    ∃ watching, poller.poll events = DirectoryPoller.takeBack { poller with
      filePaths := poller.filePaths ++ appendedBy poller events, watching } := by
  rw [DirectoryPoller.poll, appendedBy]
  cases hf : poller.filePaths.isEmpty with
  | false => exact ⟨poller.watching, by simp⟩
  | true =>
      cases hw : poller.watching with
      | true => exact ⟨true, by simp [DirectoryPoller.pollEvents, foldl_handleEvent, hw]⟩
      | false =>
          exact ⟨true, by simp [DirectoryPoller.pollEvents, foldl_handleEvent,
            DirectoryPoller.initDirWatch]⟩

theorem appendedBy_ne_nil {poller : DirectoryPoller} {events : List InotifyEvent} {path : Str}
    (h : path ∈ appendedBy poller events) : path ≠ [] := by
  rw [appendedBy] at h
  split_ifs at h
  · obtain ⟨event, -, hadd⟩ := List.mem_flatMap.mp h
    rw [(mem_addedPaths hadd).1]
    exact eventPath_ne_nil _ _
  · cases h

theorem init_conserved (dir : Str) (names : List Str) : Conserved (init dir names) := by
  refine ⟨⟨?_, fun _ h => (by cases h)⟩, ?_, rfl, rfl⟩
  · intro path hm
    obtain ⟨name, -, rfl, -⟩ := mem_construct.mp hm
    exact entryPath_ne_nil dir name
  · simp [init, State.whereabouts, State.carried]

theorem poll_conserved {s : State} (hs : Conserved s) (hr : s.result = none)
    (events : List InotifyEvent) :
    Conserved { s with
      poller := (s.poller.poll events).2
      result := some (s.poller.poll events).1
      appended := s.appended ++ appendedBy s.poller events } := by
  obtain ⟨watching, hpoll⟩ := poll_eq_takeBack s.poller events
  have hne : ∀ path ∈ s.poller.filePaths ++ appendedBy s.poller events, path ≠ [] := by
    intro path hm
    rcases List.mem_append.mp hm with hm | hm
    · exact hs.nonempty.1 path hm
    · exact appendedBy_ne_nil hm
  have hcount := perm_whereabouts.mp hs.appended
  simp only [State.carried, hr, List.count_nil] at hcount
  rw [hpoll]
  rcases takeBack_cases { s.poller with
    filePaths := s.poller.filePaths ++ appendedBy s.poller events, watching } with
    ⟨hf, ht⟩ | ⟨rest, path, hf, ht⟩
  · obtain ⟨hf₁, hf₂⟩ := List.append_eq_nil_iff.mp hf
    rw [ht]
    refine ⟨⟨hne, hs.nonempty.2⟩, perm_whereabouts.mpr ?_, hs.order, hs.dropped⟩
    intro a
    have h := hcount a
    simp only [State.carried, PollResult.empty, List.isEmpty_nil, if_true, List.count_append,
      hf₁, hf₂, List.count_nil] at h ⊢
    omega
  · have hf : s.poller.filePaths ++ appendedBy s.poller events = rest ++ [path] := hf
    rw [hf] at hne
    have hpath : PollResult.empty ⟨path⟩ = false := by
      simpa [PollResult.empty] using hne path (by simp)
    rw [ht]
    refine ⟨⟨fun p hm => hne p (List.mem_append_left _ hm), hs.nonempty.2⟩,
      perm_whereabouts.mpr ?_, hs.order, hs.dropped⟩
    intro a
    have h := hcount a
    have hsum := congrArg (List.count a) hf
    simp only [State.carried, hpath, Bool.false_eq_true, if_false, List.count_append] at hsum ⊢
    omega

theorem enqueue_conserved {s : State} (hs : Conserved s) {r : PollResult} (hr : s.result = some r) :
    Conserved (s.pollerStep r) := by
  have hcount := perm_whereabouts.mp hs.appended
  rw [State.pollerStep]
  cases he : r.empty with
  | true =>
      simp only [Bool.not_true, Bool.false_eq_true, if_false]
      refine ⟨hs.nonempty, perm_whereabouts.mpr ?_, hs.order, hs.dropped⟩
      intro a
      have h := hcount a
      simp only [State.carried, hr, he, if_true, List.count_nil] at h ⊢
      omega
  | false =>
      simp only [Bool.not_false, if_true, SafeQueue.enqueue]
      refine ⟨⟨hs.nonempty.1, ?_⟩, perm_whereabouts.mpr ?_, ?_, hs.dropped⟩
      · intro q hm
        rcases List.mem_append.mp hm with hm | hm
        · exact hs.nonempty.2 q hm
        · rw [List.mem_singleton.mp hm]
          exact he
      · intro a
        have h := hcount a
        simp only [State.carried, hr, he, Bool.false_eq_true, if_false, List.map_append,
          List.map_cons, List.map_nil, List.count_append, List.count_nil] at h ⊢
        omega
      · rw [List.map_append, hs.order, List.append_assoc]
        rfl

theorem processor_conserved {s : State} (hs : Conserved s) (w : Nat) :
    Conserved (s.processorStep w) := by
  obtain ⟨⟨hpaths, hqueue⟩, happended, horder, hdropped⟩ := hs
  rw [State.processorStep]
  cases hq : s.queue with
  | nil =>
      -- a timeout leaves the empty result, which stands for no path
      have hempty : PollResult.empty ⟨[]⟩ = true := rfl
      rw [hq] at horder
      simp only [State.whereabouts, State.carried, hq] at happended
      simp only [SafeQueue.dequeueWithTimeout, List.isEmpty_nil, if_true, List.append_nil, hempty,
        Bool.not_true, Bool.false_eq_true, if_false]
      exact ⟨⟨hpaths, fun _ h => (by cases h)⟩, happended, horder, hdropped⟩
  | cons front queue =>
      rw [hq] at horder hqueue
      have hfront : front.empty = false := hqueue front List.mem_cons_self
      simp only [SafeQueue.dequeueWithTimeout, List.isEmpty_cons, Bool.false_eq_true, if_false,
        hfront, Bool.not_false, if_true]
      refine ⟨⟨hpaths, fun r hm => hqueue r (List.mem_cons_of_mem _ hm)⟩,
        perm_whereabouts.mpr ?_, ?_, hdropped⟩
      · intro a
        have h := perm_whereabouts.mp happended a
        simp only [State.carried, hq, List.map_cons, List.map_append, List.map_nil,
          List.count_append, List.count_cons, List.count_nil] at h ⊢
        omega
      · rw [horder, List.append_assoc]
        rfl

theorem step_conserved (s : State) (l : Label) (t : State) (h : step s l = some t)
    (hs : Conserved s) : Conserved t := by
  cases l with
  | poll events =>
      cases hr : s.result with
      | none =>
          simp only [step, hr] at h
          cases h
          exact poll_conserved hs hr events
      | some r =>
          simp only [step, hr] at h
          cases h
  | enqueue =>
      obtain ⟨r, hr, rfl⟩ := Option.map_eq_some_iff.mp h
      exact enqueue_conserved hs hr
  | processor w =>
      obtain rfl := Option.some.inj h
      exact processor_conserved hs w

/-- Every path that came into m_file_paths is in exactly one place, the queue
hands paths on in the order in which they came, and the empty result that ends
a wait is never taken for a path or a path for it. -/
theorem handed_over_once {dir : Str} {names : List Str} {tr : List Label} {t : State}
    (hr : run step (init dir names) tr = some t) :
    t.appended.Perm (t.poller.filePaths ++ t.carried ++ t.queue.map PollResult.get ++
      t.handled.map Prod.snd) ∧
    t.enqueued = t.dequeued ++ t.queue.map PollResult.get ∧ t.dropped = [] := by
  have hs := run_invariant step_conserved hr (init_conserved dir names)
  exact ⟨hs.appended, hs.order, hs.dropped⟩

theorem handed_over_once_event :
    ∃ t, run step (init ['d'] [['a']]) [.poll [], .enqueue, .processor 0, .processor 1,
        .poll [⟨inClose, 2, ['b']⟩], .enqueue, .processor 1] = some t ∧
      t.appended.Perm (t.poller.filePaths ++ t.carried ++ t.queue.map PollResult.get ++
        t.handled.map Prod.snd) ∧
      t.enqueued = t.dequeued ++ t.queue.map PollResult.get ∧ t.dropped = [] := by
  have hr : ∃ t, run step (init ['d'] [['a']]) [.poll [], .enqueue, .processor 0, .processor 1,
      .poll [⟨inClose, 2, ['b']⟩], .enqueue, .processor 1] = some t := ⟨_, rfl⟩
  obtain ⟨t, ht⟩ := hr
  exact ⟨t, ht, handed_over_once ht⟩

end Flycatcher.HandOver
