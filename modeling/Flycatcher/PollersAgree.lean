import Flycatcher.Arrivals
import Flycatcher.PollingMacOS

namespace Flycatcher.PollersAgree

open Library.TextStreams Library.Runs FileNames Polling
open Arrivals (record inCloseWrite)

def inMovedTo : BitVec 32 := 0x00000080

/-- Both implementations watch one directory. The kernels have records of inotify
that are not read yet, and a NOTE_WRITE that is not reported yet. All that was
created, closed or moved in is on record. -/
structure State where
  names : List FileName
  writing : List FileName
  created : List FileName
  moved : List FileName
  linux : DirectoryPoller
  pending : List InotifyEvent
  returnedLinux : List Str
  macOS : DirectoryPoller
  written : Bool
  returnedMacOS : List Str

inductive Label
  | create (name : FileName)
  | close (name : FileName)
  | move (name : FileName)
  | pollLinux (events : Nat)
  | pollMacOS

def State.create (s : State) (name : FileName) : State :=
  { s with
    names := name :: s.names
    writing := name :: s.writing
    created := name :: s.created
    pending := s.pending ++ [record inCreate name]
    written := true }

/-- Writing to a file does not write to the directory. -/
def State.close (s : State) (name : FileName) : State :=
  { s with
    writing := s.writing.filter (· ≠ name)
    pending := s.pending ++ [record inCloseWrite name] }

def State.move (s : State) (name : FileName) : State :=
  { s with
    names := name :: s.names
    moved := name :: s.moved
    pending := s.pending ++ [record inMovedTo name]
    written := true }

def State.pollLinux (s : State) (n : Nat) : State :=
  let (r, linux) := s.linux.poll (s.pending.take n)
  { s with
    linux
    pending := if s.linux.filePaths.isEmpty then s.pending.drop n else s.pending
    returnedLinux := s.returnedLinux ++ [r.get] }

def State.pollMacOS (s : State) : State :=
  let (r, macOS) := PollingMacOS.poll s.macOS s.written (s.names.map FileName.text)
  { s with
    macOS
    written := if s.macOS.filePaths.isEmpty then false else s.written
    returnedMacOS := s.returnedMacOS ++ [r.get] }

def step (s : State) : Label → Option State
  | .create name => if name ∉ s.names then some (s.create name) else none
  | .close name => if name ∈ s.writing then some (s.close name) else none
  | .move name => if name ∉ s.names then some (s.move name) else none
  | .pollLinux n => some (s.pollLinux n)
  | .pollMacOS => some s.pollMacOS

def init (dir : Str) (names : List FileName) : State :=
  let poller := { DirectoryPoller.construct dir (names.map FileName.text) with watching := true }
  ⟨names, [], [], [], poller, [], [], poller, false, []⟩

/-- Every file has been closed, and neither poll has anything left to do. -/
structure Drained (s : State) : Prop where
  writing : s.writing = []
  linux : s.linux.filePaths = [] ∧ s.pending = []
  macOS : s.macOS.filePaths = [] ∧ s.written = false

def Agree (s : State) : Prop :=
  ∀ path, path ≠ [] → (path ∈ s.returnedLinux ↔ path ∈ s.returnedMacOS)

def Matched (dir : Str) : Label → Prop
  | .create name => shouldAddFile name.text false = true → dir.getLast? ≠ some '/'
  | .move name => shouldAddFile name.text false = false
  | _ => True

def ClosedPath (dir : Str) (s : State) (path : Str) : Prop :=
  ∃ name ∈ s.created, name ∉ s.writing ∧ shouldAddFile name.text false = true ∧
    path = eventPath dir name.text

def ListedPath (dir : Str) (s : State) (path : Str) : Prop :=
  ∃ name, (name ∈ s.created ∨ name ∈ s.moved) ∧ path ∈ s.macOS.lastFiles ∧
    shouldAddFile name.text false = true ∧ path = entryPath dir name.text

structure Tracked (dir : Str) (initial : List FileName) (s : State) : Prop where
  linuxDir : s.linux.dirToWatch = dir ∧ s.linux.watching = true
  macOSDir : s.macOS.dirToWatch = dir ∧ s.macOS.watching = true
  names : ∀ name, name ∈ s.names ↔ name ∈ initial ∨ name ∈ s.created ∨ name ∈ s.moved
  createdFresh : ∀ name ∈ s.created, name ∉ initial ∧ name ∉ s.moved
  movedFresh : ∀ name ∈ s.moved, name ∉ initial
  writing : ∀ name ∈ s.writing, name ∈ s.created
  linux : ∀ path, path ≠ [] →
    (path ∈ s.linux.filePaths ++ s.returnedLinux ∨ path ∈ s.pending.flatMap (addedPaths dir) ↔
      path ∈ (init dir initial).linux.filePaths ∨ ClosedPath dir s path)
  macOS : ∀ path, path ≠ [] →
    (path ∈ s.macOS.filePaths ++ s.returnedMacOS ↔
      path ∈ (init dir initial).macOS.filePaths ∨ ListedPath dir s path)
  listed : ∀ path ∈ s.macOS.lastFiles, ∃ name ∈ s.names, path = entryPath dir name.text
  initialListed : ∀ name ∈ initial, entryPath dir name.text ∈ s.macOS.lastFiles
  allListed : s.written = false → ∀ name ∈ s.names, entryPath dir name.text ∈ s.macOS.lastFiles

theorem entryPath_injective {dir : Str} {name name' : FileName}
    (h : entryPath dir name.text = entryPath dir name'.text) : name = name' :=
  Leads.unique (.inl rfl) (.inl h)

theorem addedPaths_record {dir : Str} {mask : BitVec 32} (name : FileName)
    (h : mask &&& inCreate ≠ 0 ∨ mask &&& inClose = 0) :
    addedPaths dir (record mask name) = [] := by
  have hlen : (record mask name).len ≠ 0 := Nat.succ_ne_zero _
  rw [addedPaths, handleEvent, if_pos hlen]
  rcases h with hcreate | hclose
  · exact if_pos hcreate
  · have hnot : ¬ (record mask name).mask &&& inClose ≠ 0 := not_not_intro hclose
    rw [if_neg hnot, ite_self]

theorem addedPaths_close (dir : Str) (name : FileName) (path : Str) :
    path ∈ addedPaths dir (record inCloseWrite name) ↔
      shouldAddFile name.text false = true ∧ path = eventPath dir name.text := by
  constructor
  · intro h
    obtain ⟨he, hadd⟩ := mem_addedPaths h
    exact ⟨hadd, he⟩
  · rintro ⟨hadd, rfl⟩
    exact Arrivals.eventPath_mem_addedPaths dir hadd

theorem mem_takeBack (poller : DirectoryPoller) (returned : List Str) {path : Str} (h : path ≠ []) :
    path ∈ poller.takeBack.2.filePaths ++ (returned ++ [poller.takeBack.1.get]) ↔
      path ∈ poller.filePaths ++ returned := by
  rcases takeBack_cases poller with ⟨hf, ht⟩ | ⟨rest, last, hf, ht⟩
  · simp [ht, hf, h]
  · simp only [ht, hf, List.mem_append, List.mem_singleton]
    tauto

theorem init_tracked (dir : Str) (initial : List FileName) :
    Tracked dir initial (init dir initial) := by
  have hlisted (path : Str) : path ∈ (init dir initial).macOS.lastFiles ↔
      ∃ name ∈ initial, path = entryPath dir name.text := by
    apply PollingMacOS.mem_listFiles.trans
    simp [eq_comm]
  refine ⟨⟨rfl, rfl⟩, ⟨rfl, rfl⟩, ?_, ?_, ?_, ?_, ?_, ?_, fun path hm => (hlisted path).mp hm, ?_,
    ?_⟩
  · intro name
    simp [init]
  · intro name hm
    cases hm
  · intro name hm
    cases hm
  · intro name hm
    cases hm
  · intro path _
    simp [init, ClosedPath]
  · intro path _
    simp [init, ListedPath]
  · intro name hm
    exact (hlisted _).mpr ⟨name, hm, rfl⟩
  · intro _ name hm
    exact (hlisted _).mpr ⟨name, hm, rfl⟩

section Tracking

variable {dir : Str} {initial : List FileName} {s : State}

theorem fresh_unlisted (hs : Tracked dir initial s) {name : FileName} (hfresh : name ∉ s.names) :
    entryPath dir name.text ∉ s.macOS.lastFiles := by
  intro hm
  obtain ⟨other, hother, he⟩ := hs.listed _ hm
  exact hfresh (entryPath_injective he ▸ hother)

theorem listedPath_appear {s' : State} (hs : Tracked dir initial s) {name : FileName}
    (hfresh : name ∉ s.names) (hmacOS : s'.macOS = s.macOS)
    (happear : ∀ other, other ∈ s'.created ∨ other ∈ s'.moved ↔
      other = name ∨ other ∈ s.created ∨ other ∈ s.moved) (path : Str) :
    ListedPath dir s' path ↔ ListedPath dir s path := by
  simp only [ListedPath, happear, hmacOS]
  constructor
  · rintro ⟨other, rfl | hm, hlist, hadd, rfl⟩
    · exact absurd hlist (fresh_unlisted hs hfresh)
    · exact ⟨other, hm, hlist, hadd, rfl⟩
  · rintro ⟨other, hm, hlist, hadd, rfl⟩
    exact ⟨other, .inr hm, hlist, hadd, rfl⟩

theorem listed_cons {name : FileName}
    (h : ∀ path ∈ s.macOS.lastFiles, ∃ name ∈ s.names, path = entryPath dir name.text) :
    ∀ path ∈ s.macOS.lastFiles, ∃ other ∈ name :: s.names, path = entryPath dir other.text := by
  intro path hm
  obtain ⟨other, hother, he⟩ := h path hm
  exact ⟨other, List.mem_cons_of_mem name hother, he⟩

theorem create_tracked {name : FileName} (hs : Tracked dir initial s) (hfresh : name ∉ s.names) :
    Tracked dir initial (s.create name) := by
  have hnew : name ∉ initial ∧ name ∉ s.created ∧ name ∉ s.moved := by
    rw [hs.names] at hfresh
    tauto
  refine ⟨hs.linuxDir, hs.macOSDir, ?_, ?_, hs.movedFresh, ?_, ?_, ?_, listed_cons hs.listed,
    hs.initialListed, fun h => (by cases h)⟩
  · intro other
    simp only [State.create, List.mem_cons, hs.names]
    tauto
  · intro other hm
    rcases List.mem_cons.mp hm with rfl | hm
    · exact ⟨hnew.1, hnew.2.2⟩
    · exact hs.createdFresh other hm
  · intro other hm
    exact (List.mem_cons.mp hm).elim (fun he => he ▸ List.mem_cons_self)
      fun hm => List.mem_cons_of_mem name (hs.writing other hm)
  · intro path hne
    have hnone : addedPaths dir (record inCreate name) = [] :=
      addedPaths_record name (.inl (by decide))
    have hclosed : ClosedPath dir (s.create name) path ↔ ClosedPath dir s path := by
      constructor
      · rintro ⟨other, hm, hw, hadd, rfl⟩
        rw [State.create, List.mem_cons, not_or] at hw
        exact ⟨other, (List.mem_cons.mp hm).resolve_left hw.1, hw.2, hadd, rfl⟩
      · rintro ⟨other, hm, hw, hadd, rfl⟩
        have hother : other ≠ name := fun he => hnew.2.1 (he ▸ hm)
        exact ⟨other, List.mem_cons_of_mem name hm, by simp [State.create, hother, hw], hadd, rfl⟩
    rw [hclosed, ← hs.linux path hne, State.create, List.flatMap_append, List.flatMap_singleton,
      hnone, List.append_nil]
  · intro path hne
    have happear : ListedPath dir (s.create name) path ↔ ListedPath dir s path := by
      refine @listedPath_appear dir initial s (s.create name) hs name hfresh rfl ?_ path
      intro other
      simp only [State.create, List.mem_cons]
      tauto
    rw [happear]
    exact hs.macOS path hne

theorem move_tracked {name : FileName} (hs : Tracked dir initial s) (hfresh : name ∉ s.names) :
    Tracked dir initial (s.move name) := by
  have hnew : name ∉ initial ∧ name ∉ s.created ∧ name ∉ s.moved := by
    rw [hs.names] at hfresh
    tauto
  refine ⟨hs.linuxDir, hs.macOSDir, ?_, ?_, ?_, hs.writing, ?_, ?_, listed_cons hs.listed,
    hs.initialListed, fun h => (by cases h)⟩
  · intro other
    simp only [State.move, List.mem_cons, hs.names]
    tauto
  · intro other hm
    have hother : other ≠ name := fun he => hnew.2.1 (he ▸ hm)
    simpa [State.move, hother] using hs.createdFresh other hm
  · intro other hm
    rcases List.mem_cons.mp hm with rfl | hm
    · exact hnew.1
    · exact hs.movedFresh other hm
  · intro path hne
    have hnone : addedPaths dir (record inMovedTo name) = [] :=
      addedPaths_record name (.inr (by decide))
    rw [State.move, List.flatMap_append, List.flatMap_singleton, hnone, List.append_nil]
    exact hs.linux path hne
  · intro path hne
    have happear : ListedPath dir (s.move name) path ↔ ListedPath dir s path := by
      refine @listedPath_appear dir initial s (s.move name) hs name hfresh rfl ?_ path
      intro other
      simp only [State.move, List.mem_cons]
      tauto
    rw [happear]
    exact hs.macOS path hne

theorem close_tracked {name : FileName} (hs : Tracked dir initial s) (hwriting : name ∈ s.writing) :
    Tracked dir initial (s.close name) := by
  have hcreated := hs.writing name hwriting
  refine ⟨hs.linuxDir, hs.macOSDir, hs.names, hs.createdFresh, hs.movedFresh, ?_, ?_, hs.macOS,
    hs.listed, hs.initialListed, hs.allListed⟩
  · intro other hm
    exact hs.writing other (List.mem_of_mem_filter hm)
  · intro path hne
    have hclosed : ClosedPath dir (s.close name) path ↔ ClosedPath dir s path ∨
        path ∈ addedPaths dir (record inCloseWrite name) := by
      rw [addedPaths_close]
      constructor
      · rintro ⟨other, hm, hw, hadd, rfl⟩
        by_cases he : other = name
        · exact .inr ⟨he ▸ hadd, by rw [he]⟩
        · refine .inl ⟨other, hm, ?_, hadd, rfl⟩
          intro hw'
          exact hw (List.mem_filter.mpr ⟨hw', decide_eq_true he⟩)
      · rintro (⟨other, hm, hw, hadd, rfl⟩ | ⟨hadd, rfl⟩)
        · exact ⟨other, hm, fun h => hw (List.mem_of_mem_filter h), hadd, rfl⟩
        · exact ⟨name, hcreated, by simp [State.close], hadd, rfl⟩
    rw [hclosed, ← or_assoc, ← hs.linux path hne]
    simp only [State.close, List.flatMap_append, List.flatMap_singleton, List.mem_append, or_assoc]

def State.read (s : State) (n : Nat) : State :=
  { s with
    linux := { s.linux with
      filePaths := s.linux.filePaths ++ (s.pending.take n).flatMap (addedPaths s.linux.dirToWatch) }
    pending := s.pending.drop n }

theorem read_tracked (hs : Tracked dir initial s) (n : Nat) : Tracked dir initial (s.read n) := by
  refine ⟨hs.linuxDir, hs.macOSDir, hs.names, hs.createdFresh, hs.movedFresh, hs.writing, ?_,
    hs.macOS, hs.listed, hs.initialListed, hs.allListed⟩
  intro path hne
  have hsplit : s.pending.flatMap (addedPaths dir) =
      (s.pending.take n).flatMap (addedPaths dir) ++ (s.pending.drop n).flatMap (addedPaths dir) := by
    rw [← List.flatMap_append, List.take_append_drop]
  refine Iff.trans ?_ (hs.linux path hne)
  simp only [State.read, hs.linuxDir.1, hsplit, List.mem_append]
  tauto

theorem takeBackLinux_tracked (hs : Tracked dir initial s) :
    Tracked dir initial { s with
      linux := s.linux.takeBack.2
      returnedLinux := s.returnedLinux ++ [s.linux.takeBack.1.get] } := by
  obtain ⟨hdir, hwatching, -⟩ := takeBack_members s.linux
  refine ⟨⟨hdir.trans hs.linuxDir.1, hwatching.trans hs.linuxDir.2⟩, hs.macOSDir, hs.names,
    hs.createdFresh, hs.movedFresh, hs.writing, ?_, hs.macOS, hs.listed, hs.initialListed,
    hs.allListed⟩
  intro path hne
  rw [mem_takeBack s.linux s.returnedLinux hne]
  exact hs.linux path hne

theorem pollLinux_tracked (hs : Tracked dir initial s) (n : Nat) :
    Tracked dir initial (s.pollLinux n) := by
  rw [State.pollLinux, DirectoryPoller.poll]
  cases hf : s.linux.filePaths.isEmpty with
  | false => exact takeBackLinux_tracked hs
  | true =>
      simp only [hs.linuxDir.2, DirectoryPoller.pollEvents, foldl_handleEvent]
      exact takeBackLinux_tracked (read_tracked hs n)

def State.noteWrite (s : State) : State :=
  { s with
    macOS := PollingMacOS.noteWrite s.macOS (s.names.map FileName.text)
    written := false }

theorem noteWrite_tracked (hs : Tracked dir initial s) : Tracked dir initial s.noteWrite := by
  have hlast (path : Str) : path ∈ s.noteWrite.macOS.lastFiles ↔
      ∃ name ∈ s.names, entryPath dir name.text = path := by
    apply PollingMacOS.mem_listFiles.trans
    simp only [hs.macOSDir.1, List.mem_map, exists_exists_and_eq_and]
  refine ⟨hs.linuxDir, hs.macOSDir, hs.names, hs.createdFresh, hs.movedFresh, hs.writing, hs.linux,
    ?_, ?_, ?_, ?_⟩
  · intro path hne
    have hnew : path ∈ s.noteWrite.macOS.filePaths ++ s.returnedMacOS ↔
        path ∈ s.macOS.filePaths ++ s.returnedMacOS ∨
          ∃ name ∈ s.names, entryPath dir name.text = path ∧ path ∉ s.macOS.lastFiles ∧
            shouldAddFile name.text false = true := by
      have hmem := @PollingMacOS.mem_noteWrite s.macOS (s.names.map FileName.text) path
      simp only [hs.macOSDir.1, List.mem_map, exists_exists_and_eq_and] at hmem
      rw [List.mem_append, State.noteWrite, hmem, List.mem_append]
      exact or_right_comm
    apply hnew.trans
    rw [hs.macOS path hne, or_assoc]
    apply or_congr_right
    constructor
    · rintro (⟨name, happeared, -, hadd, rfl⟩ | ⟨name, hm, rfl, hunlisted, hadd⟩)
      · have hname := (hs.names name).mpr (.inr happeared)
        exact ⟨name, happeared, (hlast _).mpr ⟨name, hname, rfl⟩, hadd, rfl⟩
      · refine ⟨name, ?_, (hlast _).mpr ⟨name, hm, rfl⟩, hadd, rfl⟩
        apply ((hs.names name).mp hm).resolve_left
        intro hinitial
        exact hunlisted (hs.initialListed name hinitial)
    · rintro ⟨name, happeared, -, hadd, rfl⟩
      by_cases hlisted : entryPath dir name.text ∈ s.macOS.lastFiles
      · exact .inl ⟨name, happeared, hlisted, hadd, rfl⟩
      · exact .inr ⟨name, (hs.names name).mpr (.inr happeared), rfl, hlisted, hadd⟩
  · intro path hm
    obtain ⟨name, hname, rfl⟩ := (hlast path).mp hm
    exact ⟨name, hname, rfl⟩
  · intro name hm
    exact (hlast _).mpr ⟨name, (hs.names name).mpr (.inl hm), rfl⟩
  · intro _ name hm
    exact (hlast _).mpr ⟨name, hm, rfl⟩

theorem takeBackMacOS_tracked (hs : Tracked dir initial s) :
    Tracked dir initial { s with
      macOS := s.macOS.takeBack.2
      returnedMacOS := s.returnedMacOS ++ [s.macOS.takeBack.1.get] } := by
  obtain ⟨hdir, hwatching, hlast⟩ := takeBack_members s.macOS
  refine ⟨hs.linuxDir, ⟨hdir.trans hs.macOSDir.1, hwatching.trans hs.macOSDir.2⟩, hs.names,
    hs.createdFresh, hs.movedFresh, hs.writing, hs.linux, ?_, hlast ▸ hs.listed,
    hlast ▸ hs.initialListed, hlast ▸ hs.allListed⟩
  intro path hne
  rw [mem_takeBack s.macOS s.returnedMacOS hne, hs.macOS path hne]
  simp only [ListedPath, hlast]

theorem pollMacOS_tracked (hs : Tracked dir initial s) : Tracked dir initial s.pollMacOS := by
  rw [State.pollMacOS, PollingMacOS.poll]
  cases hf : s.macOS.filePaths.isEmpty with
  | false => exact takeBackMacOS_tracked hs
  | true =>
      cases hw : s.written with
      | false =>
          simp only [hs.macOSDir.2]
          have h := takeBackMacOS_tracked hs
          rw [hw] at h
          exact h
      | true =>
          simp only [hs.macOSDir.2]
          exact takeBackMacOS_tracked (noteWrite_tracked hs)

end Tracking

theorem step_tracked (dir : Str) (initial : List FileName) (s : State) (l : Label) (t : State)
    (h : step s l = some t) (hs : Tracked dir initial s) : Tracked dir initial t := by
  cases l with
  | create name =>
      obtain ⟨hfresh, he⟩ := Option.ite_none_right_eq_some.mp h
      cases he
      exact create_tracked hs hfresh
  | close name =>
      obtain ⟨hwriting, he⟩ := Option.ite_none_right_eq_some.mp h
      cases he
      exact close_tracked hs hwriting
  | move name =>
      obtain ⟨hfresh, he⟩ := Option.ite_none_right_eq_some.mp h
      cases he
      exact move_tracked hs hfresh
  | pollLinux n =>
      cases h
      exact pollLinux_tracked hs n
  | pollMacOS =>
      cases h
      exact pollMacOS_tracked hs

theorem step_history {s t : State} {l : Label} (h : step s l = some t) (name : FileName) :
    (name ∈ t.created ↔ name ∈ s.created ∨ .create name = l) ∧
      (name ∈ t.moved ↔ name ∈ s.moved ∨ .move name = l) := by
  cases l with
  | create other =>
      obtain ⟨-, he⟩ := Option.ite_none_right_eq_some.mp h
      cases he
      simp [State.create, or_comm]
  | close other =>
      obtain ⟨-, he⟩ := Option.ite_none_right_eq_some.mp h
      cases he
      simp [State.close]
  | move other =>
      obtain ⟨-, he⟩ := Option.ite_none_right_eq_some.mp h
      cases he
      simp [State.move, or_comm]
  | pollLinux n =>
      cases h
      simp [State.pollLinux]
  | pollMacOS =>
      cases h
      simp [State.pollMacOS]

theorem run_history {s t : State} {tr : List Label} (hr : run step s tr = some t) (name : FileName) :
    (name ∈ t.created ↔ name ∈ s.created ∨ .create name ∈ tr) ∧
      (name ∈ t.moved ↔ name ∈ s.moved ∨ .move name ∈ tr) := by
  induction tr generalizing s with
  | nil =>
      cases hr
      simp
  | cons l tr ih =>
      obtain ⟨u, hu, hr⟩ := run_cons_eq_some.mp hr
      obtain ⟨hcreated, hmoved⟩ := step_history hu name
      obtain ⟨hcreated', hmoved'⟩ := ih hr
      rw [hcreated', hmoved', hcreated, hmoved]
      simp only [List.mem_cons, or_assoc, and_self]

theorem eventPath_eq_entryPath {dir : Str} (h : dir.getLast? ≠ some '/') (name : Str) :
    eventPath dir name = entryPath dir name := by
  rw [eventPath, entryPath, if_neg h, List.append_assoc]
  rfl

/-- Behind a slash at its end the directory is written down in two ways. -/
theorem eventPath_ne_entryPath {dir : Str} (h : dir.getLast? = some '/') (name : Str) :
    eventPath dir name ≠ entryPath dir name := by
  intro he
  have hlength := congrArg List.length he
  simp [eventPath, entryPath, h] at hlength

section Drained

variable {dir : Str} {initial : List FileName} {t : State}

theorem drained_linux (ht : Tracked dir initial t) (hd : Drained t) {path : Str} (hne : path ≠ []) :
    path ∈ t.returnedLinux ↔ path ∈ (init dir initial).linux.filePaths ∨
      ∃ name ∈ t.created, shouldAddFile name.text false = true ∧ path = eventPath dir name.text := by
  have h := ht.linux path hne
  rw [hd.linux.1, hd.linux.2, List.nil_append, List.flatMap_nil] at h
  simpa [ClosedPath, hd.writing] using h

theorem drained_macOS (ht : Tracked dir initial t) (hd : Drained t) {path : Str} (hne : path ≠ []) :
    path ∈ t.returnedMacOS ↔ path ∈ (init dir initial).linux.filePaths ∨
      ∃ name, (name ∈ t.created ∨ name ∈ t.moved) ∧ shouldAddFile name.text false = true ∧
        path = entryPath dir name.text := by
  have h := ht.macOS path hne
  rw [hd.macOS.1, List.nil_append] at h
  refine h.trans (or_congr_right ?_)
  constructor
  · rintro ⟨name, happeared, -, hadd, he⟩
    exact ⟨name, happeared, hadd, he⟩
  · rintro ⟨name, happeared, hadd, rfl⟩
    have hnames := (ht.names name).mpr (.inr happeared)
    exact ⟨name, happeared, ht.allListed hd.macOS.2 name hnames, hadd, rfl⟩

theorem leads_unlisted (ht : Tracked dir initial t) {path : Str} {name : FileName}
    (hleads : Leads dir path name) (happeared : name ∈ t.created ∨ name ∈ t.moved) :
    path ∉ (init dir initial).linux.filePaths := by
  intro hm
  obtain ⟨text, htext, rfl, -⟩ := mem_construct.mp hm
  obtain ⟨other, hother, rfl⟩ := List.mem_map.mp htext
  have he : name = other := hleads.unique (.inl rfl)
  rcases happeared with hc | hc
  · exact (ht.createdFresh name hc).1 (he ▸ hother)
  · exact ht.movedFresh name hc (he ▸ hother)

/-- When both have drained their notifications, they have returned the same paths
exactly when every new file that they should add was created there, in a
directory that is not given with a slash at its end. -/
theorem drained_agree_iff {tr : List Label} (hr : run step (init dir initial) tr = some t)
    (hd : Drained t) : Agree t ↔ ∀ l ∈ tr, Matched dir l := by
  have ht := run_invariant (step_tracked dir initial) hr (init_tracked dir initial)
  have hcreated (name : FileName) : name ∈ t.created ↔ .create name ∈ tr := by
    rw [(run_history hr name).1]
    simp [init]
  have hmoved (name : FileName) : name ∈ t.moved ↔ .move name ∈ tr := by
    rw [(run_history hr name).2]
    simp [init]
  constructor
  · intro hagree l hl
    cases l with
    | create name =>
        intro hadd hslash
        have hc := (hcreated name).mpr hl
        have hne := eventPath_ne_nil dir name.text
        have hreturned := (drained_linux ht hd hne).mpr (.inr ⟨name, hc, hadd, rfl⟩)
        rcases (drained_macOS ht hd hne).mp ((hagree _ hne).mp hreturned) with
          hstart | ⟨other, -, -, he⟩
        · exact leads_unlisted ht (.inr rfl) (.inl hc) hstart
        · have hsame : name = other := Leads.unique (.inr rfl) (.inl he)
          exact eventPath_ne_entryPath hslash name.text (hsame ▸ he)
    | move name =>
        have hm := (hmoved name).mpr hl
        have hne := entryPath_ne_nil dir name.text
        rw [Matched, ← Bool.not_eq_true]
        intro hadd
        have hreturned := (drained_macOS ht hd hne).mpr (.inr ⟨name, .inr hm, hadd, rfl⟩)
        rcases (drained_linux ht hd hne).mp ((hagree _ hne).mpr hreturned) with
          hstart | ⟨other, hc, -, he⟩
        · exact leads_unlisted ht (.inl rfl) (.inr hm) hstart
        · have hsame : name = other := Leads.unique (.inl rfl) (.inr he)
          exact (ht.createdFresh other hc).2 (hsame ▸ hm)
    | close | pollLinux | pollMacOS => trivial
  · intro hmatched path hne
    rw [drained_linux ht hd hne, drained_macOS ht hd hne]
    apply or_congr_right
    constructor
    · rintro ⟨name, hc, hadd, rfl⟩
      have hslash := hmatched _ ((hcreated name).mp hc) hadd
      exact ⟨name, .inl hc, hadd, eventPath_eq_entryPath hslash name.text⟩
    · rintro ⟨name, hc | hm, hadd, rfl⟩
      · have hslash := hmatched _ ((hcreated name).mp hc) hadd
        exact ⟨name, hc, hadd, (eventPath_eq_entryPath hslash name.text).symm⟩
      · have hnot : shouldAddFile name.text false = false := hmatched _ ((hmoved name).mp hm)
        rw [hnot] at hadd
        cases hadd

end Drained

theorem drained_agree_created :
    ∃ t, run step (init ['d'] [⟨['o'], by decide⟩]) [.create ⟨['a'], by decide⟩, .pollMacOS,
        .move ⟨['b', '_', 'd', 'o', 'n', 'e'], by decide⟩, .pollLinux 3,
        .close ⟨['a'], by decide⟩, .pollMacOS, .pollMacOS, .pollLinux 1, .pollLinux 2] = some t ∧
      Drained t ∧ Agree t := by
  have hr : ∃ t, run step (init ['d'] [⟨['o'], by decide⟩]) [.create ⟨['a'], by decide⟩,
      .pollMacOS, .move ⟨['b', '_', 'd', 'o', 'n', 'e'], by decide⟩, .pollLinux 3,
      .close ⟨['a'], by decide⟩, .pollMacOS, .pollMacOS, .pollLinux 1, .pollLinux 2] = some t ∧
      Drained t := ⟨_, rfl, ⟨rfl, ⟨rfl, rfl⟩, ⟨rfl, rfl⟩⟩⟩
  obtain ⟨t, ht, hd⟩ := hr
  refine ⟨t, ht, hd, (drained_agree_iff ht hd).mpr ?_⟩
  simp [Matched]
  decide

/-- The records of inotify say that a file was moved in, and poll passes them over. -/
theorem moved_file_missed :
    ∃ t, run step (init ['d'] []) [.move ⟨['a'], by decide⟩, .pollLinux 1, .pollMacOS] = some t ∧
      Drained t ∧ ¬ Agree t := by
  refine ⟨_, rfl, ⟨rfl, ⟨rfl, rfl⟩, ⟨rfl, rfl⟩⟩, ?_⟩
  intro h
  have hpath := h ['d', '/', 'a'] (List.cons_ne_nil _ _)
  revert hpath
  decide

end Flycatcher.PollersAgree
