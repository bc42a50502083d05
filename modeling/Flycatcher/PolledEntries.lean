import Flycatcher.Library.Directories
import Flycatcher.Library.Runs
import Flycatcher.Polling
import Mathlib.Data.List.Basic
import Mathlib.Data.List.Forall2
import Mathlib.Data.List.Induction

namespace Flycatcher.PolledEntries

open Library.TextStreams Library.Directories Library.Runs FileNames Polling

inductive Kind
  | regular
  | directory
deriving DecidableEq

abbrev Entry := FileName × Kind

/-- A record with the entry that it is about. The kernel sets IN_ISDIR for the
directories. -/
structure Record where
  event : InotifyEvent
  entry : Entry
  name_eq : event.name = entry.1.text
  isdir_iff : event.mask &&& inIsdir ≠ 0 ↔ entry.2 = .directory

structure State where
  poller : DirectoryPoller
  sources : List Entry
  pending : List Record
  returned : List (Str × Option Entry)

inductive Label
  | notify (record : Record)
  | poll (records : Nat)

def sourcesOf (dir : Str) (record : Record) : List Entry :=
  (addedPaths dir record.event).map fun _ => record.entry

def start (dir : Str) (content : Directory FileName Kind) : State :=
  let poller := DirectoryPoller.construct dir (content.names.map FileName.text)
  let sources := poller.filePaths.filterMap fun path =>
    content.entries.find? fun entry => entryPath dir entry.1.text = path
  ⟨poller, sources, [], []⟩

def State.read (s : State) (records : Nat) : List Record :=
  if s.poller.filePaths.isEmpty then s.pending.take records else []

def step (s : State) : Label → Option State
  | .notify record => some { s with pending := s.pending ++ [record] }
  | .poll records =>
      let read := s.read records
      let (result, poller) := s.poller.poll (read.map Record.event)
      let sources := s.sources ++ read.flatMap (sourcesOf s.poller.dirToWatch)
      some {
        poller
        sources := sources.dropLast
        pending := s.pending.drop read.length
        returned := s.returned ++ [(result.get, sources.getLast?)] }

def NeverDirectory (dir : Str) (content : Directory FileName Kind) : Prop :=
  ∀ labels t, run step (start dir content) labels = some t → ∀ result ∈ t.returned, result.1 ≠ [] →
    ∃ entry, result.2 = some entry ∧ Leads dir result.1 entry.1 ∧ entry.2 ≠ .directory

variable {dir : Str} {content : Directory FileName Kind}

theorem forall₂_filterMap {α β : Type} {R : α → β → Prop} {f : α → Option β} {xs : List α}
    (h : ∀ x ∈ xs, ∃ y, f x = some y ∧ R x y) : List.Forall₂ R xs (xs.filterMap f) := by
  induction xs with
  | nil => exact .nil
  | cons x xs ih =>
      obtain ⟨y, hy, hR⟩ := h x List.mem_cons_self
      rw [List.filterMap_cons_some hy]
      exact .cons hR (ih fun z hz => h z (List.mem_cons_of_mem x hz))

theorem forall₂_concat_left {α β : Type} {R : α → β → Prop} {xs : List α} {x : α} {ys : List β}
    (h : List.Forall₂ R (xs ++ [x]) ys) :
    ∃ zs y, ys = zs ++ [y] ∧ List.Forall₂ R xs zs ∧ R x y := by
  induction xs generalizing ys with
  | nil =>
      obtain ⟨y, zs, hR, hn, rfl⟩ := List.forall₂_cons_left_iff.mp h
      obtain rfl := List.forall₂_nil_left_iff.mp hn
      exact ⟨[], y, rfl, .nil, hR⟩
  | cons w xs ih =>
      obtain ⟨v, us, hR, hrest, rfl⟩ := List.forall₂_cons_left_iff.mp h
      obtain ⟨zs, y, rfl, hzs, hy⟩ := ih hrest
      exact ⟨v :: zs, y, rfl, .cons hR hzs, hy⟩

theorem forall₂_sourcesOf {R : Str → Entry → Prop} {record : Record}
    (h : ∀ path ∈ addedPaths dir record.event, R path record.entry) :
    List.Forall₂ R (addedPaths dir record.event) (sourcesOf dir record) := by
  rw [sourcesOf, List.forall₂_map_right_iff, List.forall₂_same]
  exact h

def State.paths (s : State) (records : Nat) : List Str :=
  s.poller.filePaths ++
    (s.read records).flatMap fun record => addedPaths s.poller.dirToWatch record.event

theorem poll_read (s : State) (records : Nat) : ∃ watching,
    s.poller.poll ((s.read records).map Record.event) =
      { s.poller with watching, filePaths := s.paths records }.takeBack := by
  have hflat : ((s.read records).map Record.event).flatMap (addedPaths s.poller.dirToWatch) =
      (s.read records).flatMap fun record => addedPaths s.poller.dirToWatch record.event :=
    List.flatMap_map ..
  rw [DirectoryPoller.poll, State.paths, ← hflat]
  by_cases hp : s.poller.filePaths = []
  · refine ⟨true, ?_⟩
    cases hw : s.poller.watching <;>
      simp [DirectoryPoller.pollEvents, DirectoryPoller.initDirWatch, foldl_handleEvent, hp, hw]
  · have hread : s.read records = [] := by simp [State.read, hp]
    refine ⟨s.poller.watching, ?_⟩
    simp [hp, hread]

theorem step_poll {R : Str → Entry → Prop} {s t : State} {records : Nat}
    (hs : List.Forall₂ R s.poller.filePaths s.sources)
    (hread : ∀ record ∈ s.read records, ∀ path ∈ addedPaths s.poller.dirToWatch record.event,
      R path record.entry)
    (h : step s (.poll records) = some t) :
    t.poller.dirToWatch = s.poller.dirToWatch ∧ List.Forall₂ R t.poller.filePaths t.sources ∧
      (s.paths records = [] ∧ t.returned = s.returned ++ [([], none)] ∨
        ∃ rest path entry, s.paths records = rest ++ [path] ∧ t.poller.filePaths = rest ∧
          R path entry ∧ t.returned = s.returned ++ [(path, some entry)]) := by
  have hall : List.Forall₂ R (s.paths records)
      (s.sources ++ (s.read records).flatMap (sourcesOf s.poller.dirToWatch)) := by
    apply List.rel_append hs
    generalize s.read records = read at hread
    induction read with
    | nil => exact .nil
    | cons record read ih =>
        rw [List.flatMap_cons, List.flatMap_cons]
        exact List.rel_append (forall₂_sourcesOf (hread record List.mem_cons_self))
          (ih fun r hr => hread r (List.mem_cons_of_mem record hr))
  obtain ⟨watching, hpoll⟩ := poll_read s records
  simp only [step, hpoll, Option.some.injEq] at h
  subst h
  rcases takeBack_cases { s.poller with watching, filePaths := s.paths records } with
    ⟨hn, ht⟩ | ⟨rest, path, hc, ht⟩
  · obtain hn : s.paths records = [] := hn
    rw [hn] at hall
    rw [ht, List.forall₂_nil_left_iff.mp hall]
    exact ⟨rfl, hn ▸ .nil, .inl ⟨hn, rfl⟩⟩
  · obtain hc : s.paths records = rest ++ [path] := hc
    rw [hc] at hall
    obtain ⟨entries, entry, he, hrest, hR⟩ := forall₂_concat_left hall
    simp only [ht, he, List.dropLast_concat, List.getLast?_concat]
    exact ⟨trivial, hrest, .inr ⟨rest, path, entry, hc, rfl, hR, rfl⟩⟩

theorem exists_returned {s : State} {R : Str → Entry → Prop}
    (hs : List.Forall₂ R s.poller.filePaths s.sources) {path : Str}
    (hm : path ∈ s.poller.filePaths) : ∃ labels t entry,
      run step s labels = some t ∧ R path entry ∧ (path, some entry) ∈ t.returned := by
  generalize hp : s.poller.filePaths = paths at hm
  induction paths using List.reverseRecOn generalizing s with
  | nil => cases hm
  | append_singleton rest last ih =>
      obtain ⟨t, ht⟩ : ∃ t, step s (.poll 0) = some t := ⟨_, rfl⟩
      have hread : s.read 0 = [] := by simp [State.read]
      have hpaths : s.paths 0 = rest ++ [last] := by simp [State.paths, hread, hp]
      obtain ⟨-, hmatch, hcase⟩ := @step_poll R s t 0 hs (by simp [hread]) ht
      rcases hcase with ⟨hn, -⟩ | ⟨rest', last', entry, hc, hrest, hR, hret⟩
      · simp [hpaths] at hn
      · rw [hpaths] at hc
        obtain ⟨rfl, hlast⟩ := List.append_inj' hc rfl
        obtain rfl := List.singleton_inj.mp hlast
        rcases List.mem_append.mp hm with hm | hm
        · obtain ⟨labels, u, entry', hr, hR', hu⟩ := ih hmatch hrest hm
          exact ⟨.poll 0 :: labels, u, entry', run_cons_eq_some.mpr ⟨t, ht, hr⟩, hR', hu⟩
        · obtain rfl := List.mem_singleton.mp hm
          exact ⟨[.poll 0], t, entry, run_cons_eq_some.mpr ⟨t, ht, rfl⟩, hR, by simp [hret]⟩

theorem start_matched (dir : Str) (content : Directory FileName Kind) :
    List.Forall₂ (fun path entry => entry ∈ content.entries ∧
        path = entryPath dir entry.1.text ∧ shouldAddFile entry.1.text true = true)
      (start dir content).poller.filePaths (start dir content).sources := by
  apply forall₂_filterMap
  intro path hp
  obtain ⟨text, htext, rfl, hadd⟩ := mem_construct.mp hp
  obtain ⟨name, hname, rfl⟩ := List.mem_map.mp htext
  obtain ⟨entry, hentry, rfl⟩ := List.mem_map.mp hname
  cases hf : content.entries.find? fun e => entryPath dir e.1.text = entryPath dir entry.1.text with
  | none =>
      have hne := List.find?_eq_none.mp hf entry hentry
      simp at hne
  | some found =>
      have hfound := List.find?_some hf
      have hpath : entryPath dir entry.1.text = entryPath dir found.1.text :=
        (of_decide_eq_true hfound).symm
      refine ⟨found, rfl, List.mem_of_find?_eq_some hf, hpath, ?_⟩
      rw [← shouldAddFile_entryPath dir, ← hpath, shouldAddFile_entryPath, hadd]

structure Clean (dir : Str) (s : State) : Prop where
  dirToWatch : s.poller.dirToWatch = dir
  sources : List.Forall₂ (fun path entry => Leads dir path entry.1 ∧ entry.2 ≠ .directory)
    s.poller.filePaths s.sources
  returned : ∀ result ∈ s.returned, result.1 ≠ [] →
    ∃ entry, result.2 = some entry ∧ Leads dir result.1 entry.1 ∧ entry.2 ≠ .directory

theorem addedPaths_regular {record : Record} {path : Str}
    (h : path ∈ addedPaths dir record.event) :
    Leads dir path record.entry.1 ∧ record.entry.2 ≠ .directory := by
  obtain ⟨hpath, -⟩ := mem_addedPaths h
  refine ⟨.inr (hpath.trans (by rw [record.name_eq])), ?_⟩
  rw [ne_eq, ← record.isdir_iff]
  intro hdir
  rw [addedPaths, handleEvent, if_pos hdir] at h
  simp at h

theorem step_clean {s t : State} {a : Label} (h : step s a = some t) (hs : Clean dir s) :
    Clean dir t := by
  cases a with
  | notify record =>
      cases h
      exact ⟨hs.dirToWatch, hs.sources, hs.returned⟩
  | poll records =>
      obtain ⟨hdir, hmatch, hcase⟩ := step_poll hs.sources
        (fun record _ path hp => addedPaths_regular (hs.dirToWatch ▸ hp)) h
      refine ⟨hdir.trans hs.dirToWatch, hmatch, ?_⟩
      intro result hm hne
      rcases hcase with ⟨-, hret⟩ | ⟨rest, path, entry, -, -, hR, hret⟩
      · rw [hret] at hm
        rcases List.mem_append.mp hm with hm | hm
        · exact hs.returned result hm hne
        · obtain rfl := List.mem_singleton.mp hm
          exact absurd rfl hne
      · rw [hret] at hm
        rcases List.mem_append.mp hm with hm | hm
        · exact hs.returned result hm hne
        · obtain rfl := List.mem_singleton.mp hm
          exact ⟨entry, rfl, hR⟩

theorem start_clean
    (h : ∀ entry ∈ content.entries, entry.2 = .directory → doneMark <:+ entry.1.text) :
    Clean dir (start dir content) := by
  refine ⟨rfl, ?_, by simp [start]⟩
  apply (start_matched dir content).imp
  rintro path entry ⟨hentry, hpath, hadd⟩
  refine ⟨.inl hpath, ?_⟩
  intro hdir
  exact (shouldAddFile_startingUp _).mp hadd (h entry hentry hdir)

/-- The event loop leaves directories out, the constructor does not: what keeps
a directory from being handed out there is a name that ends in _done. -/
theorem neverDirectory_iff (dir : Str) (content : Directory FileName Kind) :
    NeverDirectory dir content ↔
      ∀ entry ∈ content.entries, entry.2 = .directory → doneMark <:+ entry.1.text := by
  constructor
  · intro h entry hentry hdir
    by_contra hdone
    have hname : entry.1.text ∈ content.names.map FileName.text :=
      List.mem_map_of_mem (List.mem_map_of_mem hentry)
    have hm : entryPath dir entry.1.text ∈ (start dir content).poller.filePaths :=
      mem_construct.mpr ⟨_, hname, rfl, (shouldAddFile_startingUp _).mpr hdone⟩
    obtain ⟨labels, t, entry', hr, ⟨hentry', hpath, -⟩, ht⟩ :=
      exists_returned (start_matched dir content) hm
    obtain ⟨entry'', he, hleads, hregular⟩ := h labels t hr _ ht (entryPath_ne_nil dir _)
    cases he
    have hsame : entry'.1 = entry.1 := hleads.unique (.inl rfl)
    have he : entry' = entry := List.inj_on_of_nodup_map content.nodup hentry' hentry hsame
    exact hregular (he ▸ hdir)
  · intro h labels t hr
    exact (run_invariant (fun s a t => step_clean) hr (start_clean h)).returned

def closedFile : Record :=
  ⟨⟨inClose, 16, ['f']⟩, (⟨['f'], by decide⟩, .regular), rfl, by decide⟩

def closedSubdirectory : Record :=
  ⟨⟨inClose ||| inIsdir, 16, "sub".toList⟩, (⟨"sub".toList, by decide⟩, .directory), rfl, by decide⟩

/-- Of a subdirectory and a file that are closed the file is handed out. -/
example : (run step (start ['d'] ⟨[], by decide⟩)
    [.notify closedSubdirectory, .notify closedFile, .poll 2, .poll 0]).map State.returned =
      some [("d/f".toList, some closedFile.entry), ([], none)] := by decide

def oneSubdirectory : Directory FileName Kind :=
  ⟨[(⟨['s', 'u', 'b'], by decide⟩, .directory)], by decide⟩

theorem subdirectory_returned : ∃ t,
    run step (start ['d'] oneSubdirectory) [.poll 0] = some t ∧
      t.returned = [("d/sub".toList, some (⟨['s', 'u', 'b'], by decide⟩, .directory))] :=
  ⟨_, rfl, by decide⟩

theorem subdirectory_not_never : ¬NeverDirectory ['d'] oneSubdirectory := by
  intro h
  obtain ⟨t, ht, hret⟩ := subdirectory_returned
  have hm : ("d/sub".toList, some (⟨['s', 'u', 'b'], by decide⟩, Kind.directory)) ∈ t.returned :=
    hret ▸ List.mem_cons_self
  obtain ⟨entry, he, -, hregular⟩ := h _ t ht _ hm (by decide)
  cases he
  exact hregular rfl

end Flycatcher.PolledEntries
