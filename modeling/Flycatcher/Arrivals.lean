import Flycatcher.Library.Runs
import Flycatcher.Polling
import Mathlib.Data.List.Basic

namespace Flycatcher.Arrivals

open Library.TextStreams Library.Runs FileNames Polling

/-- Where the poller thread stands. The directory is opened some time before
the iterator has come to its end, and poll has a point at which it makes the
watch and one at which it reads. -/
inductive Phase
  | starting
  | listing (present : List FileName)
  | between
  | initialising
  | reading
deriving DecidableEq

structure State where
  phase : Phase
  poller : DirectoryPoller
  names : List FileName
  writing : List FileName
  pending : List InotifyEvent
  arrived : List FileName
  returned : List Str

inductive Label
  | create (name : FileName)
  | close (name : FileName)
  | openDirectory
  | list (seen : List FileName)
  | poll
  | watch
  | read (events : Nat)

def inCloseWrite : BitVec 32 := 0x00000008

def record (mask : BitVec 32) (name : FileName) : InotifyEvent :=
  ⟨mask, name.text.length + 1, name.text⟩

def State.notify (s : State) (event : InotifyEvent) : State :=
  if s.poller.watching then { s with pending := s.pending ++ [event] } else s

def State.return (s : State) (r : PollResult × DirectoryPoller) : State :=
  { s with phase := .between, poller := r.2, returned := s.returned ++ [r.1.get] }

/-- The iterator comes across all that was there when the directory was opened,
and may or may not come across what has been created since. -/
def step (dir : Str) (s : State) : Label → Option State
  | .create name =>
      if name ∉ s.names ∧ shouldAddFile name.text false = true then
        some (State.notify { s with names := name :: s.names, writing := name :: s.writing }
          (record inCreate name))
      else none
  | .close name =>
      if name ∈ s.writing then
        some (State.notify { s with
          writing := s.writing.filter (· ≠ name), arrived := name :: s.arrived }
          (record inCloseWrite name))
      else none
  | .openDirectory =>
      if s.phase = .starting then some { s with phase := .listing s.names } else none
  | .list seen =>
      match s.phase with
      | .listing present =>
          if present ⊆ seen ∧ seen ⊆ s.names then
            some { s with phase := .between, poller := .construct dir (seen.map FileName.text) }
          else none
      | _ => none
  | .poll =>
      if s.phase = .between then
        some (if !s.poller.filePaths.isEmpty then s.return s.poller.takeBack
          else { s with phase := if s.poller.watching then .reading else .initialising })
      else none
  | .watch =>
      if s.phase = .initialising then
        some { s with phase := .reading, poller := s.poller.initDirWatch }
      else none
  | .read n =>
      if s.phase = .reading then
        some (State.return { s with pending := s.pending.drop n }
          (s.poller.pollEvents (s.pending.take n)))
      else none

def init (dir : Str) (names : List FileName) : State :=
  ⟨.starting, ⟨dir, [], false, ∅⟩, names, [], [], [], []⟩

def Phase.listed : Phase → Bool
  | .starting => false
  | .listing _ => false
  | _ => true

def Drained (s : State) : Prop :=
  s.poller.filePaths = [] ∧ s.pending = [] ∧ s.returned.getLast? = some []

def Returned (dir : Str) (s : State) (name : FileName) : Prop :=
  ∃ path ∈ s.returned, Leads dir path name

/-- A file is on the startup list when the directory has been listed after it
was closed, and otherwise it is on the list or there is a watch. -/
def Caught (dir : Str) (s : State) : Label → Prop
  | .close name => s.phase.listed = true →
      s.poller.watching = true ∨ entryPath dir name.text ∈ s.poller.lastFiles
  | .list seen => ∀ name ∈ s.arrived, name ∈ seen
  | _ => True

def State.known (s : State) : List Str := s.poller.filePaths ++ s.returned

theorem known_return {s : State} {poller : DirectoryPoller} {path : Str} :
    path ∈ (s.return poller.takeBack).known ↔
      path ∈ poller.filePaths ++ s.returned ∨ poller.filePaths = [] ∧ path = [] := by
  rcases takeBack_cases poller with ⟨hf, ht⟩ | ⟨rest, last, hf, ht⟩
  · simp [State.known, State.return, ht, hf]
  · simp only [State.known, State.return, ht, hf, List.mem_append, List.mem_singleton]
    simp only [List.append_eq_nil_iff, List.cons_ne_self, and_false, false_and, or_false]
    tauto

theorem return_poller (s : State) (r : PollResult × DirectoryPoller) :
    (s.return r).poller = r.2 := rfl

theorem notify_eq (s : State) (event : InotifyEvent) :
    s.notify event = { s with
      pending := if s.poller.watching then s.pending ++ [event] else s.pending } := by
  rw [State.notify]
  split_ifs <;> rfl

theorem mem_pending_notify {s : State} {event : InotifyEvent} (h : event ∈ s.pending)
    (other : InotifyEvent) :
    event ∈ if s.poller.watching then s.pending ++ [other] else s.pending := by
  split_ifs
  · exact List.mem_append_left _ h
  · exact h

/-- When nothing comes in between, the steps of a call make up poll. -/
theorem run_poll (dir : Str) {s : State} (hp : s.phase = .between) (n : Nat) :
    ∃ tr, run (step dir) s tr = some (State.return
      { s with pending := if s.poller.filePaths.isEmpty then s.pending.drop n else s.pending }
      (s.poller.poll (s.pending.take n))) := by
  cases hf : s.poller.filePaths.isEmpty with
  | false =>
      refine ⟨[.poll], ?_⟩
      simp [run, step, hp, hf, DirectoryPoller.poll, State.return]
  | true =>
      cases hw : s.poller.watching with
      | true =>
          refine ⟨[.poll, .read n], ?_⟩
          simp [run, step, hp, hf, hw, DirectoryPoller.poll, State.return]
      | false =>
          refine ⟨[.poll, .watch, .read n], ?_⟩
          simp [run, step, hp, hf, hw, DirectoryPoller.poll, State.return]

theorem step_list {dir : Str} {s t : State} {seen : List FileName}
    (h : step dir s (.list seen) = some t) :
    ∃ present, s.phase = .listing present ∧ (present ⊆ seen ∧ seen ⊆ s.names) ∧
      { s with phase := .between, poller := .construct dir (seen.map FileName.text) } = t := by
  simp only [step] at h
  split at h
  next present hp =>
    obtain ⟨hseen, he⟩ := Option.ite_none_right_eq_some.mp h
    exact ⟨present, hp, hseen, Option.some.inj he⟩
  next => cases h

structure Sane (dir : Str) (s : State) : Prop where
  dirToWatch : s.poller.dirToWatch = dir
  writing : ∀ name ∈ s.writing, name ∈ s.names ∧ shouldAddFile name.text false = true
  arrived : ∀ name ∈ s.arrived,
    name ∈ s.names ∧ name ∉ s.writing ∧ shouldAddFile name.text false = true
  unlisted : s.phase.listed = false → s.poller.watching = false ∧ s.known = []
  unwatched : s.poller.watching = false →
    s.pending = [] ∧ ∀ path ∈ s.known, path ∈ s.poller.lastFiles
  reading : s.phase = .reading → s.poller.watching = true
  lastFiles : ∀ path ∈ s.poller.lastFiles, ∃ name : FileName, path = entryPath dir name.text

theorem init_sane (dir : Str) (names : List FileName) : Sane dir (init dir names) := by
  constructor <;> simp [init, State.known, Phase.listed]

section SaneSteps

variable {dir : Str} {s : State} {name : FileName}

theorem Sane.notify (hs : Sane dir s) (event : InotifyEvent) : Sane dir (s.notify event) := by
  rw [notify_eq]
  refine ⟨hs.dirToWatch, hs.writing, hs.arrived, hs.unlisted, ?_, hs.reading, hs.lastFiles⟩
  intro hw
  have hw' : s.poller.watching = false := hw
  obtain ⟨hpend, hk⟩ := hs.unwatched hw'
  exact ⟨by simp [hw', hpend], hk⟩

theorem Sane.created (hs : Sane dir s) (hfresh : name ∉ s.names)
    (hadd : shouldAddFile name.text false = true) :
    Sane dir { s with names := name :: s.names, writing := name :: s.writing } := by
  refine ⟨hs.dirToWatch, ?_, ?_, hs.unlisted, hs.unwatched, hs.reading, hs.lastFiles⟩
  · intro n hn
    rcases List.mem_cons.mp hn with rfl | hn
    · exact ⟨List.mem_cons_self, hadd⟩
    · exact ⟨List.mem_cons_of_mem _ (hs.writing n hn).1, (hs.writing n hn).2⟩
  · intro n hn
    obtain ⟨hm, hw, ha⟩ := hs.arrived n hn
    refine ⟨List.mem_cons_of_mem _ hm, ?_, ha⟩
    rintro hc
    rcases List.mem_cons.mp hc with rfl | hc
    · exact hfresh hm
    · exact hw hc

theorem Sane.closed (hs : Sane dir s) (hmem : name ∈ s.writing) :
    Sane dir { s with
      writing := s.writing.filter (· ≠ name), arrived := name :: s.arrived } := by
  refine ⟨hs.dirToWatch, ?_, ?_, hs.unlisted, hs.unwatched, hs.reading, hs.lastFiles⟩
  · intro n hn
    exact hs.writing n (List.mem_of_mem_filter hn)
  · intro n hn
    rcases List.mem_cons.mp hn with rfl | hn
    · exact ⟨(hs.writing n hmem).1, by simp, (hs.writing n hmem).2⟩
    · obtain ⟨hm, hw, ha⟩ := hs.arrived n hn
      exact ⟨hm, fun hc => hw (List.mem_of_mem_filter hc), ha⟩

theorem Sane.constructed (hs : Sane dir s) (hl : s.phase.listed = false) (seen : List FileName) :
    Sane dir { s with phase := .between, poller := .construct dir (seen.map FileName.text) } := by
  obtain ⟨hw, hk⟩ := hs.unlisted hl
  have hr : s.returned = [] := (List.append_eq_nil_iff.mp hk).2
  refine ⟨rfl, hs.writing, hs.arrived, ?_, ?_, ?_, ?_⟩
  · intro hc
    cases hc
  · intro _
    refine ⟨(hs.unwatched hw).1, ?_⟩
    intro path hm
    simp only [State.known, hr, List.append_nil] at hm
    exact Std.TreeSet.mem_toList.mp (List.mem_of_mem_filter hm)
  · intro hc
    cases hc
  · intro path hm
    simp only [DirectoryPoller.construct, listFiles, Std.TreeSet.mem_ofList,
      List.contains_iff_mem, List.map_map, List.mem_map] at hm
    obtain ⟨name, -, rfl⟩ := hm
    exact ⟨name, rfl⟩

theorem Sane.returned (hs : Sane dir s)
    (hf : s.poller.filePaths = [] → s.poller.watching = true) :
    Sane dir (s.return s.poller.takeBack) := by
  obtain ⟨hd, hw, hlast⟩ := takeBack_members s.poller
  refine ⟨hd.trans hs.dirToWatch, hs.writing, hs.arrived, ?_, ?_, ?_, ?_⟩
  · intro hc
    cases hc
  · intro hc
    have hunwatched := hw.symm.trans hc
    obtain ⟨hpend, hk⟩ := hs.unwatched hunwatched
    refine ⟨hpend, ?_⟩
    intro path hm
    rw [return_poller, hlast]
    refine hk path ((known_return.mp hm).resolve_right ?_)
    rintro ⟨hn, -⟩
    cases hunwatched.symm.trans (hf hn)
  · intro hc
    cases hc
  · rw [return_poller, hlast]
    exact hs.lastFiles

theorem Sane.added (hs : Sane dir s) (hp : s.phase = .reading) (pending : List InotifyEvent)
    (filePaths : List Str) :
    Sane dir { s with pending := pending, poller := { s.poller with filePaths := filePaths } } := by
  have hwatch := hs.reading hp
  refine ⟨hs.dirToWatch, hs.writing, hs.arrived, ?_, ?_, hs.reading, hs.lastFiles⟩
  · intro hc
    cases hp ▸ hc
  · intro hc
    cases hwatch.symm.trans hc

end SaneSteps

theorem step_sane (dir : Str) (s : State) (a : Label) (t : State) (h : step dir s a = some t)
    (hs : Sane dir s) : Sane dir t := by
  cases a with
  | create name =>
      obtain ⟨⟨hfresh, hadd⟩, he⟩ := Option.ite_none_right_eq_some.mp h
      cases he
      exact (hs.created hfresh hadd).notify _
  | close name =>
      obtain ⟨hmem, he⟩ := Option.ite_none_right_eq_some.mp h
      cases he
      exact (hs.closed hmem).notify _
  | openDirectory =>
      obtain ⟨hp, he⟩ := Option.ite_none_right_eq_some.mp h
      cases he
      have hl : s.phase.listed = false := by rw [hp]; rfl
      exact ⟨hs.dirToWatch, hs.writing, hs.arrived, fun _ => hs.unlisted hl, hs.unwatched,
        fun hc => (by cases hc), hs.lastFiles⟩
  | list seen =>
      obtain ⟨present, hp, -, rfl⟩ := step_list h
      have hl : s.phase.listed = false := by rw [hp]; rfl
      exact hs.constructed hl seen
  | poll =>
      obtain ⟨hp, he⟩ := Option.ite_none_right_eq_some.mp h
      split_ifs at he with hf hwatch
      · cases he
        apply hs.returned
        intro hn
        simp [hn] at hf
      · cases he
        exact ⟨hs.dirToWatch, hs.writing, hs.arrived, fun hc => (by cases hc), hs.unwatched,
          fun _ => hwatch, hs.lastFiles⟩
      · cases he
        exact ⟨hs.dirToWatch, hs.writing, hs.arrived, fun hc => (by cases hc), hs.unwatched,
          fun hc => (by cases hc), hs.lastFiles⟩
  | watch =>
      obtain ⟨hp, he⟩ := Option.ite_none_right_eq_some.mp h
      cases he
      refine ⟨hs.dirToWatch, hs.writing, hs.arrived, ?_, ?_, ?_, hs.lastFiles⟩
      · intro hc
        cases hc
      · intro hc
        cases hc
      · intro _
        rfl
  | read n =>
      obtain ⟨hp, he⟩ := Option.ite_none_right_eq_some.mp h
      cases he
      have hadded := hs.added hp (s.pending.drop n)
        ((s.pending.take n).foldl (handleEvent s.poller.dirToWatch) s.poller.filePaths)
      exact hadded.returned fun _ => hs.reading hp

structure Kept (dir : Str) (s : State) : Prop where
  sane : Sane dir s
  listing : s.phase.listed = true →
    ∀ path ∈ s.poller.lastFiles, shouldAddFile path true = true → path ∈ s.known
  held : s.phase.listed = true → ∀ name ∈ s.arrived,
    (∃ path ∈ s.known, Leads dir path name) ∨ record inCloseWrite name ∈ s.pending

theorem eventPath_mem_addedPaths (dir : Str) {name : FileName}
    (h : shouldAddFile name.text false = true) :
    eventPath dir name.text ∈ addedPaths dir (record inCloseWrite name) := by
  have hadd : shouldAddFile (eventPath dir name.text) false = true :=
    (shouldAddFile_eventPath dir name.text false).trans h
  have hlen : (record inCloseWrite name).len ≠ 0 := Nat.succ_ne_zero _
  have hcreate : ¬ (record inCloseWrite name).mask &&& inCreate ≠ 0 := by
    show ¬ inCloseWrite &&& inCreate ≠ 0
    decide
  have hclose : (record inCloseWrite name).mask &&& inClose ≠ 0 := by
    show inCloseWrite &&& inClose ≠ 0
    decide
  have hdir : ¬ (record inCloseWrite name).mask &&& inIsdir ≠ 0 := by
    show ¬ inCloseWrite &&& inIsdir ≠ 0
    decide
  rw [addedPaths, handleEvent, if_pos hlen, if_neg hcreate, if_pos hclose, if_neg hdir]
  exact (if_pos hadd).symm ▸ List.mem_singleton_self _

theorem step_read {dir : Str} {s t : State} {n : Nat} (hs : Sane dir s)
    (h : step dir s (.read n) = some t) :
    s.phase = .reading ∧ t.phase = .between ∧ t.poller.lastFiles = s.poller.lastFiles ∧
      t.arrived = s.arrived ∧ t.pending = s.pending.drop n ∧
      (∀ path ∈ s.known, path ∈ t.known) ∧
      (∀ event ∈ s.pending.take n, ∀ path ∈ addedPaths dir event, path ∈ t.known) ∧
      ∀ path ∈ t.known, path ∈ s.known ∨
        (∃ event ∈ s.pending.take n, path ∈ addedPaths dir event) ∨ path = [] := by
  obtain ⟨hp, he⟩ := Option.ite_none_right_eq_some.mp h
  rw [DirectoryPoller.pollEvents, hs.dirToWatch] at he
  obtain rfl := Option.some.inj he
  refine ⟨hp, rfl, (takeBack_members _).2.2, rfl, rfl, ?_, ?_, ?_⟩
  · intro path hm
    rw [known_return, foldl_handleEvent]
    simp only [State.known, List.mem_append] at hm ⊢
    tauto
  · intro event hevent path hm
    have hadded := List.mem_flatMap_of_mem hevent hm
    rw [known_return, foldl_handleEvent]
    simp only [List.mem_append]
    tauto
  · intro path hm
    rw [known_return, foldl_handleEvent] at hm
    simp only [State.known, List.mem_append, List.mem_flatMap] at hm ⊢
    rcases hm with ((hm | hm) | hm) | ⟨-, hm⟩
    · exact .inl (.inl hm)
    · exact .inr (.inl hm)
    · exact .inl (.inr hm)
    · exact .inr (.inr hm)

section KeptSteps

variable {dir : Str} {s t : State} {name : FileName}

theorem Kept.created (hs : Kept dir s) (hfresh : name ∉ s.names)
    (hadd : shouldAddFile name.text false = true) :
    Kept dir (State.notify { s with names := name :: s.names, writing := name :: s.writing }
      (record inCreate name)) := by
  have hsane := (hs.sane.created hfresh hadd).notify (record inCreate name)
  rw [notify_eq] at hsane ⊢
  refine ⟨hsane, hs.listing, ?_⟩
  intro hl n hn
  exact (hs.held hl n hn).imp_right fun hm => mem_pending_notify hm _

theorem Kept.closed (hs : Kept dir s) (hmem : name ∈ s.writing)
    (hcaught : Caught dir s (.close name)) :
    Kept dir (State.notify { s with
      writing := s.writing.filter (· ≠ name), arrived := name :: s.arrived }
      (record inCloseWrite name)) := by
  have hsane := (hs.sane.closed hmem).notify (record inCloseWrite name)
  rw [notify_eq] at hsane ⊢
  refine ⟨hsane, hs.listing, ?_⟩
  intro hl n hn
  have hadd := (hs.sane.writing name hmem).2
  rcases List.mem_cons.mp hn with rfl | hn
  · rcases hcaught hl with hw | hlast
    · right
      simp only [hw, if_true]
      exact List.mem_append_right _ List.mem_cons_self
    · left
      refine ⟨_, hs.listing hl _ hlast ?_, .inl rfl⟩
      rw [shouldAddFile_entryPath]
      exact shouldAddFile_mono hadd
  · exact (hs.held hl n hn).imp_right fun hm => mem_pending_notify hm _

theorem Kept.constructed (hs : Kept dir s) (hl : s.phase.listed = false) {seen : List FileName}
    (hcaught : Caught dir s (.list seen)) :
    Kept dir { s with phase := .between, poller := .construct dir (seen.map FileName.text) } := by
  refine ⟨hs.sane.constructed hl seen, ?_, ?_⟩
  · intro _ path hm hadd
    exact List.mem_append_left _ (List.mem_filter.mpr ⟨Std.TreeSet.mem_toList.mpr hm, hadd⟩)
  · intro _ n hn
    have hadd := shouldAddFile_mono (hs.sane.arrived n hn).2.2
    refine .inl ⟨entryPath dir n.text, List.mem_append_left _ (mem_construct.mpr ?_), .inl rfl⟩
    exact ⟨n.text, List.mem_map_of_mem (hcaught n hn), rfl, hadd⟩

theorem Kept.returned (hs : Kept dir s) (hl : s.phase.listed = true)
    (hf : s.poller.filePaths = [] → s.poller.watching = true) :
    Kept dir (s.return s.poller.takeBack) := by
  obtain ⟨-, -, hlast⟩ := takeBack_members s.poller
  refine ⟨hs.sane.returned hf, ?_, ?_⟩
  · intro _ path hm hadd
    rw [return_poller, hlast] at hm
    exact known_return.mpr (.inl (hs.listing hl path hm hadd))
  · intro _ n hn
    apply (hs.held hl n hn).imp_left
    rintro ⟨path, hk, hlead⟩
    exact ⟨path, known_return.mpr (.inl hk), hlead⟩

theorem Kept.read {n : Nat} (hs : Kept dir s) (h : step dir s (.read n) = some t) : Kept dir t := by
  have hsane := step_sane dir s _ t h hs.sane
  obtain ⟨hp, -, hlast, harrived, hpending, hknown, hadded, -⟩ := step_read hs.sane h
  have hl : s.phase.listed = true := by rw [hp]; rfl
  refine ⟨hsane, ?_, ?_⟩
  · intro _ path hm hadd
    rw [hlast] at hm
    exact hknown path (hs.listing hl path hm hadd)
  · intro _ name hn
    rw [harrived] at hn
    rw [hpending]
    rcases hs.held hl name hn with ⟨path, hk, hlead⟩ | hm
    · exact .inl ⟨path, hknown path hk, hlead⟩
    · rw [← List.take_append_drop n s.pending] at hm
      rcases List.mem_append.mp hm with hm | hm
      · -- the record is among those that are read
        have hadd := eventPath_mem_addedPaths dir (hs.sane.arrived name hn).2.2
        exact .inl ⟨eventPath dir name.text, hadded _ hm _ hadd, .inr rfl⟩
      · exact .inr hm

end KeptSteps

theorem step_kept (dir : Str) (s : State) (a : Label) (t : State) (h : step dir s a = some t)
    (hcaught : Caught dir s a) (hs : Kept dir s) : Kept dir t := by
  have hsane := step_sane dir s a t h hs.sane
  cases a with
  | create name =>
      obtain ⟨⟨hfresh, hadd⟩, he⟩ := Option.ite_none_right_eq_some.mp h
      cases he
      exact hs.created hfresh hadd
  | close name =>
      obtain ⟨hmem, he⟩ := Option.ite_none_right_eq_some.mp h
      cases he
      exact hs.closed hmem hcaught
  | openDirectory =>
      obtain ⟨hp, he⟩ := Option.ite_none_right_eq_some.mp h
      cases he
      exact ⟨hsane, fun hc => (by cases hc), fun hc => (by cases hc)⟩
  | list seen =>
      obtain ⟨present, hp, -, rfl⟩ := step_list h
      have hl : s.phase.listed = false := by rw [hp]; rfl
      exact hs.constructed hl hcaught
  | poll =>
      obtain ⟨hp, he⟩ := Option.ite_none_right_eq_some.mp h
      have hl : s.phase.listed = true := by rw [hp]; rfl
      split_ifs at he with hf hwatch
      · cases he
        apply hs.returned hl
        intro hn
        simp [hn] at hf
      · cases he
        exact ⟨hsane, fun _ => hs.listing hl, fun _ => hs.held hl⟩
      · cases he
        exact ⟨hsane, fun _ => hs.listing hl, fun _ => hs.held hl⟩
  | watch =>
      obtain ⟨hp, he⟩ := Option.ite_none_right_eq_some.mp h
      cases he
      have hl : s.phase.listed = true := by rw [hp]; rfl
      exact ⟨hsane, fun _ => hs.listing hl, fun _ => hs.held hl⟩
  | read n => exact hs.read h

structure Lost (dir : Str) (name : FileName) (s : State) : Prop where
  sane : Sane dir s
  listed : s.phase.listed = true
  arrived : name ∈ s.arrived
  known : ∀ path ∈ s.known, ¬ Leads dir path name
  pending : ∀ event ∈ s.pending, ∃ other : FileName, other ≠ name ∧ event.name = other.text

theorem not_leads_eventPath {dir : Str} {name other : FileName} (h : other ≠ name) :
    ¬ Leads dir (eventPath dir other.text) name := by
  intro hlead
  have hother : Leads dir (eventPath dir other.text) other := .inr rfl
  exact h (hother.unique hlead)

theorem not_leads_nil (dir : Str) (name : FileName) : ¬ Leads dir [] name := by
  intro hlead
  obtain ⟨d, hd⟩ := hlead.behind_slash
  simp at hd

theorem notify_lost {name other : FileName} {s : State} {mask : BitVec 32}
    (hne : other ≠ name)
    (hs : ∀ event ∈ s.pending, ∃ other : FileName, other ≠ name ∧ event.name = other.text) :
    ∀ event ∈ (if s.poller.watching then s.pending ++ [record mask other] else s.pending),
      ∃ other : FileName, other ≠ name ∧ event.name = other.text := by
  intro event hm
  split_ifs at hm
  · rcases List.mem_append.mp hm with hm | hm
    · exact hs event hm
    · rw [List.mem_singleton.mp hm]
      exact ⟨other, hne, rfl⟩
  · exact hs event hm

theorem Lost.read {dir : Str} {name : FileName} {s t : State} {n : Nat} (hs : Lost dir name s)
    (h : step dir s (.read n) = some t) : Lost dir name t := by
  have hsane := step_sane dir s _ t h hs.sane
  obtain ⟨-, hphase, -, harrived, hpending, -, -, hknown⟩ := step_read hs.sane h
  refine ⟨hsane, ?_, harrived ▸ hs.arrived, ?_, ?_⟩
  · rw [hphase]
    rfl
  · intro path hm
    rcases hknown path hm with hk | ⟨event, hevent, hadd⟩ | rfl
    · exact hs.known path hk
    · obtain ⟨other, hne, ho⟩ := hs.pending event (List.mem_of_mem_take hevent)
      rw [(mem_addedPaths hadd).1, ho]
      exact not_leads_eventPath hne
    · exact not_leads_nil dir name
  · intro event hm
    rw [hpending] at hm
    exact hs.pending event (List.mem_of_mem_drop hm)

theorem step_lost (dir : Str) (name : FileName) (s : State) (a : Label) (t : State)
    (h : step dir s a = some t) (hs : Lost dir name s) : Lost dir name t := by
  have hsane := step_sane dir s a t h hs.sane
  obtain ⟨hmem, hnw, -⟩ := hs.sane.arrived name hs.arrived
  cases a with
  | create other =>
      obtain ⟨⟨hfresh, -⟩, he⟩ := Option.ite_none_right_eq_some.mp h
      rw [notify_eq] at he
      cases he
      have hne : other ≠ name := fun he => hfresh (he ▸ hmem)
      exact ⟨hsane, hs.listed, hs.arrived, hs.known, notify_lost hne hs.pending⟩
  | close other =>
      obtain ⟨hw, he⟩ := Option.ite_none_right_eq_some.mp h
      rw [notify_eq] at he
      cases he
      have hne : other ≠ name := fun he => hnw (he ▸ hw)
      exact ⟨hsane, hs.listed, List.mem_cons_of_mem _ hs.arrived, hs.known,
        notify_lost hne hs.pending⟩
  | openDirectory =>
      obtain ⟨hp, -⟩ := Option.ite_none_right_eq_some.mp h
      cases hp ▸ hs.listed
  | list seen =>
      obtain ⟨present, hp, -⟩ := step_list h
      cases hp ▸ hs.listed
  | poll =>
      obtain ⟨hp, he⟩ := Option.ite_none_right_eq_some.mp h
      split_ifs at he with hf hwatch
      · cases he
        refine ⟨hsane, rfl, hs.arrived, ?_, hs.pending⟩
        intro path hm
        rcases known_return.mp hm with hk | ⟨-, rfl⟩
        · exact hs.known path hk
        · exact not_leads_nil dir name
      · cases he
        exact ⟨hsane, rfl, hs.arrived, hs.known, hs.pending⟩
      · cases he
        exact ⟨hsane, rfl, hs.arrived, hs.known, hs.pending⟩
  | watch =>
      obtain ⟨hp, he⟩ := Option.ite_none_right_eq_some.mp h
      cases he
      exact ⟨hsane, rfl, hs.arrived, hs.known, hs.pending⟩
  | read n => exact hs.read h

theorem init_kept (dir : Str) (names : List FileName) : Kept dir (init dir names) :=
  ⟨init_sane dir names, fun h => (by cases h), fun h => (by cases h)⟩

theorem step_uncaught {dir : Str} {s t : State} {a : Label} (hs : Sane dir s)
    (h : step dir s a = some t) (hn : ¬ Caught dir s a) : ∃ name, Lost dir name t := by
  have hsane := step_sane dir s a t h hs
  cases a with
  | close name =>
      obtain ⟨hmem, he⟩ := Option.ite_none_right_eq_some.mp h
      simp only [Caught, Classical.not_imp, not_or, Bool.not_eq_true] at hn
      obtain ⟨hl, hw, hlast⟩ := hn
      rw [notify_eq, hw] at he
      cases he
      obtain ⟨hpend, hk⟩ := hs.unwatched hw
      refine ⟨name, hsane, hl, List.mem_cons_self, ?_, ?_⟩
      · -- all that the poller knows is on the startup list
        intro path hm hlead
        obtain ⟨other, rfl⟩ := hs.lastFiles path (hk path hm)
        have hother : Leads dir (entryPath dir other.text) other := .inl rfl
        obtain rfl := hlead.unique hother
        exact hlast (hk _ hm)
      · simp [hpend]
  | list seen =>
      obtain ⟨present, hp, -, rfl⟩ := step_list h
      simp only [Caught, not_forall] at hn
      obtain ⟨name, hn, hseen⟩ := hn
      have hl : s.phase.listed = false := by rw [hp]; rfl
      obtain ⟨hw, hk⟩ := hs.unlisted hl
      refine ⟨name, hsane, rfl, hn, ?_, ?_⟩
      · intro path hm hlead
        rw [State.known, (List.append_eq_nil_iff.mp hk).2, List.append_nil, mem_construct] at hm
        obtain ⟨text, hm, rfl, -⟩ := hm
        obtain ⟨other, hother, rfl⟩ := List.mem_map.mp hm
        have hlead' : Leads dir (entryPath dir other.text) other := .inl rfl
        obtain rfl := hlead.unique hlead'
        exact hseen hother
      · simp [(hs.unwatched hw).1]
  | create name | openDirectory | poll | watch | read n => exact absurd trivial hn

theorem drained_listed {dir : Str} {s : State} (hs : Sane dir s) (hd : Drained s) :
    s.phase.listed = true := by
  by_contra hl
  obtain ⟨-, hk⟩ := hs.unlisted (by simpa using hl)
  obtain ⟨-, -, hlast⟩ := hd
  rw [(List.append_eq_nil_iff.mp hk).2] at hlast
  cases hlast

/-- When the poller has come to rest, it has returned every file that has
arrived exactly when no step of the run has failed to catch one. -/
theorem drained_returned_iff {dir : Str} {names : List FileName} {tr : List Label} {t : State}
    (hr : run (step dir) (init dir names) tr = some t) (hd : Drained t) :
    (∀ name ∈ t.arrived, Returned dir t name) ↔ Along (step dir) (Caught dir) (init dir names) tr := by
  have hsane := run_invariant (step_sane dir) hr (init_sane dir names)
  have hl := drained_listed hsane hd
  obtain ⟨hf, hp, -⟩ := hd
  have hk : t.known = t.returned := by rw [State.known, hf, List.nil_append]
  constructor
  · intro hall
    by_contra hn
    obtain ⟨u, v, a, xs, ys, -, hxs, hna, hstep, hys⟩ := exists_of_not_along hr hn
    have hu := run_invariant (step_sane dir) hxs (init_sane dir names)
    obtain ⟨name, hlost⟩ := step_uncaught hu hstep hna
    have ht := run_invariant (step_lost dir name) hys hlost
    obtain ⟨path, hm, hlead⟩ := hall name ht.arrived
    exact ht.known path (hk ▸ hm) hlead
  · intro hall name hn
    have ht := run_invariant_along (step_kept dir) hall hr (init_kept dir names)
    rcases ht.held hl name hn with ⟨path, hm, hlead⟩ | hm
    · exact ⟨path, hk ▸ hm, hlead⟩
    · rw [hp] at hm
      cases hm

instance (dir : Str) (s : State) (name : FileName) : Decidable (Returned dir s name) :=
  inferInstanceAs (Decidable (∃ _ ∈ _, _))

theorem drained_returned_watched :
    ∃ t, run (step ['d']) (init ['d'] []) [.openDirectory, .list [], .poll, .watch,
        .create ⟨['a'], by decide⟩, .close ⟨['a'], by decide⟩, .read 2, .poll, .read 0] = some t ∧
      Drained t ∧ Along (step ['d']) (Caught ['d']) (init ['d'] []) [.openDirectory, .list [], .poll,
        .watch, .create ⟨['a'], by decide⟩, .close ⟨['a'], by decide⟩, .read 2, .poll, .read 0] :=
  ⟨_, rfl, ⟨rfl, rfl, rfl⟩, (drained_returned_iff rfl ⟨rfl, rfl, rfl⟩).mp (by decide)⟩

/-- A file that arrives between the startup listing and the watch. -/
theorem drained_not_returned :
    ∃ t, run (step ['d']) (init ['d'] []) [.openDirectory, .list [],
        .create ⟨['a'], by decide⟩, .close ⟨['a'], by decide⟩, .poll, .watch, .read 0] = some t ∧
      Drained t ∧ ∃ name ∈ t.arrived, ¬ Returned ['d'] t name :=
  ⟨_, rfl, ⟨rfl, rfl, rfl⟩, by decide⟩

end Flycatcher.Arrivals
