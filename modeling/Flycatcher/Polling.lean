import Flycatcher.FileNames
import Std.Data.TreeSet.Lemmas
import Mathlib.Data.List.Basic

namespace Flycatcher.Polling

open Library.TextStreams FileNames

structure PollResult where
  get : Str

def PollResult.empty (result : PollResult) : Bool := result.get.isEmpty

/-- A record of inotify. The name is the text in front of the padding, and len
the number of bytes that it has with the padding. -/
structure InotifyEvent where
  mask : BitVec 32
  len : Nat
  name : Str

def inCreate : BitVec 32 := 0x00000100

def inClose : BitVec 32 := 0x00000008 ||| 0x00000010

def inIsdir : BitVec 32 := 0x40000000

/-- m_fd and m_wd are either both set or both -1. -/
structure DirectoryPoller where
  dirToWatch : Str
  filePaths : List Str
  watching : Bool
  lastFiles : Std.TreeSet Str compare

def listFiles (dir : Str) (names : List Str) : Std.TreeSet Str compare :=
  .ofList (names.map (entryPath dir))

def DirectoryPoller.construct (dir : Str) (names : List Str) : DirectoryPoller :=
  let lastFiles := listFiles dir names
  ⟨dir, lastFiles.toList.filter (shouldAddFile · true), false, lastFiles⟩

def handleEvent (dir : Str) (filePaths : List Str) (event : InotifyEvent) : List Str :=
  if event.len ≠ 0 then
    if event.mask &&& inCreate ≠ 0 then filePaths
    else if event.mask &&& inClose ≠ 0 then
      if event.mask &&& inIsdir ≠ 0 then filePaths
      else
        let fileName := eventPath dir event.name
        if shouldAddFile fileName false then filePaths ++ [fileName] else filePaths
    else filePaths
  else filePaths

def DirectoryPoller.takeBack (poller : DirectoryPoller) : PollResult × DirectoryPoller :=
  match poller.filePaths.getLast? with
  | some path => (⟨path⟩, { poller with filePaths := poller.filePaths.dropLast })
  | none => (⟨[]⟩, poller)

/-- It is assumed that inotify_init and inotify_add_watch succeed, and that the
function, which has no return statement, gives true. -/
def DirectoryPoller.initDirWatch (poller : DirectoryPoller) : DirectoryPoller :=
  { poller with watching := true }

def DirectoryPoller.pollEvents (poller : DirectoryPoller) (events : List InotifyEvent) :
    PollResult × DirectoryPoller :=
  { poller with
    filePaths := events.foldl (handleEvent poller.dirToWatch) poller.filePaths }.takeBack

def DirectoryPoller.poll (poller : DirectoryPoller) (events : List InotifyEvent) :
    PollResult × DirectoryPoller :=
  if !poller.filePaths.isEmpty then poller.takeBack
  else
    let poller := if !poller.watching then poller.initDirWatch else poller
    poller.pollEvents events

def addedPaths (dir : Str) (event : InotifyEvent) : List Str := handleEvent dir [] event

theorem handleEvent_eq (dir : Str) (filePaths : List Str) (event : InotifyEvent) :
    handleEvent dir filePaths event = filePaths ++ addedPaths dir event := by
  simp only [addedPaths, handleEvent]
  split_ifs <;> simp

theorem foldl_handleEvent (dir : Str) (filePaths : List Str) (events : List InotifyEvent) :
    events.foldl (handleEvent dir) filePaths = filePaths ++ events.flatMap (addedPaths dir) := by
  induction events generalizing filePaths with
  | nil => simp
  | cons event events ih =>
      rw [List.foldl_cons, ih, handleEvent_eq, List.flatMap_cons, List.append_assoc]

theorem mem_addedPaths {dir path : Str} {event : InotifyEvent} (h : path ∈ addedPaths dir event) :
    path = eventPath dir event.name ∧ shouldAddFile event.name false = true := by
  rw [addedPaths, handleEvent] at h
  simp only [List.nil_append] at h
  split_ifs at h with hl hc hcl hd hadd
  all_goals simp only [List.not_mem_nil, List.mem_singleton] at h
  exact ⟨h, shouldAddFile_eventPath dir event.name false ▸ hadd⟩

theorem takeBack_cases (poller : DirectoryPoller) :
    poller.filePaths = [] ∧ poller.takeBack = (⟨[]⟩, poller) ∨
      ∃ rest path, poller.filePaths = rest ++ [path] ∧
        poller.takeBack = (⟨path⟩, { poller with filePaths := rest }) := by
  rw [DirectoryPoller.takeBack]
  rcases List.eq_nil_or_concat' poller.filePaths with hn | ⟨rest, path, hc⟩
  · simp [hn]
  · refine .inr ⟨rest, path, hc, ?_⟩
    simp [hc]

theorem takeBack_members (poller : DirectoryPoller) :
    poller.takeBack.2.dirToWatch = poller.dirToWatch ∧
      poller.takeBack.2.watching = poller.watching ∧
      poller.takeBack.2.lastFiles = poller.lastFiles := by
  rcases takeBack_cases poller with ⟨-, ht⟩ | ⟨rest, last, -, ht⟩ <;> simp [ht]

theorem mem_construct {dir path : Str} {names : List Str} :
    path ∈ (DirectoryPoller.construct dir names).filePaths ↔
      ∃ name ∈ names, entryPath dir name = path ∧ shouldAddFile name true = true := by
  have hmem : path ∈ listFiles dir names ↔ path ∈ names.map (entryPath dir) := by
    rw [listFiles, Std.TreeSet.mem_ofList, List.contains_iff_mem]
  rw [DirectoryPoller.construct, List.mem_filter, Std.TreeSet.mem_toList, hmem, List.mem_map]
  constructor
  · rintro ⟨⟨name, hm, rfl⟩, hs⟩
    exact ⟨name, hm, rfl, shouldAddFile_entryPath dir name true ▸ hs⟩
  · rintro ⟨name, hm, rfl, hs⟩
    exact ⟨⟨name, hm, rfl⟩, (shouldAddFile_entryPath dir name true).trans hs⟩

end Flycatcher.Polling
