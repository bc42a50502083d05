import Flycatcher.Polling

namespace Flycatcher.PollingMacOS

open Library.TextStreams FileNames Polling

/-- What a NOTE_WRITE on the directory leads to: set_difference takes the entries
that were not there the last time. -/
def noteWrite (poller : DirectoryPoller) (names : List Str) : DirectoryPoller :=
  let current := listFiles poller.dirToWatch names
  let added := current.toList.filter fun f => !poller.lastFiles.contains f
  { poller with
    filePaths := poller.filePaths ++ added.filter (shouldAddFile · false)
    lastFiles := current }

/-- The poll of the macOS implementation, whose members are the same but for
the kqueue, for a kevent that reports NOTE_WRITE or comes to its timeout. -/
def poll (poller : DirectoryPoller) (written : Bool) (names : List Str) :
    PollResult × DirectoryPoller :=
  if !poller.filePaths.isEmpty then poller.takeBack
  else
    let poller := if !poller.watching then poller.initDirWatch else poller
    (if written then noteWrite poller names else poller).takeBack

theorem mem_listFiles {dir path : Str} {names : List Str} :
    path ∈ listFiles dir names ↔ ∃ name ∈ names, entryPath dir name = path := by
  rw [listFiles, Std.TreeSet.mem_ofList, List.contains_iff_mem, List.mem_map]

theorem mem_noteWrite {poller : DirectoryPoller} {names : List Str} {path : Str} :
    path ∈ (noteWrite poller names).filePaths ↔ path ∈ poller.filePaths ∨
      ∃ name ∈ names, entryPath poller.dirToWatch name = path ∧ path ∉ poller.lastFiles ∧
        shouldAddFile name false = true := by
  simp only [noteWrite, List.mem_append, List.mem_filter, Std.TreeSet.mem_toList, mem_listFiles,
    Bool.not_eq_true', ← Bool.not_eq_true, Std.TreeSet.contains_iff_mem]
  constructor
  · rintro (hm | ⟨⟨⟨name, hm, rfl⟩, hnew⟩, hadd⟩)
    · exact .inl hm
    · exact .inr ⟨name, hm, rfl, hnew, shouldAddFile_entryPath _ name false ▸ hadd⟩
  · rintro (hm | ⟨name, hm, rfl, hnew, hadd⟩)
    · exact .inl hm
    · exact .inr ⟨⟨⟨name, hm, rfl⟩, hnew⟩, (shouldAddFile_entryPath _ name false).trans hadd⟩

end Flycatcher.PollingMacOS
