import Flycatcher.Arrivals
import Flycatcher.HandleOnce

namespace Flycatcher.Pipeline

open Library.TextStreams Library.Directories Library.Runs FileNames Polling
open Arrivals (Kept Sane record inCloseWrite)
open HandleOnce (Filtered Queued Custody Streamed subject winner)

def inCloseNowrite : BitVec 32 := 0x00000010

def inMovedFrom : BitVec 32 := 0x00000040

def inMovedTo : BitVec 32 := 0x00000080

def nameOf (path : Str) : Str := (path.reverse.takeWhile (· ≠ '/')).reverse

/-- The directory with the kernel's records of it and the poller, the result that
the poller has and has not handed over, and the queue with the processors, whose
directory has the files that are complete. The other fields record the past: the
files that have come complete into the directory, the names that have gone into
the queue, those of the startup listing, and what processes outside have closed. -/
structure State where
  arrivals : Arrivals.State
  carried : Option Str
  handle : Handle.State
  files : List (FileName × Str)
  enqueued : List Str
  listed : List Str
  closed : List Str

/-- A process outside creates a file, closes it when it has written it, or closes a
file that it has read. -/
inductive Label
  | create (name : FileName)
  | close (name : FileName) (content : Str)
  | look (name : FileName)
  | poller (l : Arrivals.Label)
  | enqueue
  | worker (w : Nat) (a : Handle.Action)

def ofPoller : Arrivals.Label → Bool
  | .create _ | .close _ => false
  | _ => true

def wholeListing (s : Arrivals.State) : Arrivals.Label → Bool
  | .list seen => seen.all fun name => name ∉ s.writing
  | _ => true

def movedRecords (move : Handle.Move) : List InotifyEvent :=
  [⟨inMovedFrom, move.source.length + 1, move.source⟩,
    ⟨inMovedTo, move.target.length + 1, move.target⟩]

/-- The stream is closed behind the last rename, under the name that the file has
then. -/
def closeRecords (before : Handle.Phase) (after : Handle.State) : List InotifyEvent :=
  match before with
  | .closing name _ _ =>
      let current :=
        if (after.directory.find (done name)).isSome then done name else inprogress name
      [⟨inCloseNowrite, current.length + 1, current⟩]
  | _ => []

def ownRecords (before after : Handle.State) (w : Nat) : List InotifyEvent :=
  (after.moves.drop before.moves.length).flatMap movedRecords ++
    closeRecords (before.workers w) after

def State.handOver (s : State) (path : Str) : State :=
  if !path.isEmpty then
    { s with
      carried := none
      handle := { s.handle with queue := s.handle.queue ++ [nameOf path] }
      enqueued := s.enqueued ++ [nameOf path] }
  else { s with carried := none }

def State.polled (s : State) (l : Arrivals.Label) (arrivals : Arrivals.State) : State :=
  { s with
    arrivals
    carried := (arrivals.returned.drop s.arrivals.returned.length).head?
    listed := match l with
      | .list _ => arrivals.poller.filePaths.map nameOf
      | _ => s.listed }

def step (dir : Str) (s : State) : Label → Option State
  | .create name =>
      (Arrivals.step dir s.arrivals (.create name)).map fun arrivals => { s with arrivals }
  | .close name content =>
      (Arrivals.step dir s.arrivals (.close name)).bind fun arrivals =>
        (Handle.step dir s.handle (.create name.text content)).map fun handle =>
          { s with
            arrivals
            handle
            files := (name, content) :: s.files
            closed := s.closed ++ [name.text] }
  | .look name =>
      if (s.handle.directory.find name.text).isSome then
        some { s with
          arrivals := s.arrivals.notify (record inCloseNowrite name)
          closed := s.closed ++ [name.text] }
      else none
  | .poller l =>
      if (ofPoller l && wholeListing s.arrivals l && s.carried.isNone) = true then
        (Arrivals.step dir s.arrivals l).map (s.polled l)
      else none
  | .enqueue => s.carried.map s.handOver
  | .worker w a =>
      (Handle.workerStep s.handle w a).map fun handle =>
        { s with
          arrivals := (ownRecords s.handle handle w).foldl Arrivals.State.notify s.arrivals
          handle }

def fileOf (entry : Str × Str) : Option (FileName × Str) :=
  if h : '/' ∉ entry.1 then some (⟨entry.1, h⟩, entry.2) else none

def filesOf (d : Directory Str Str) : List (FileName × Str) := d.entries.filterMap fileOf

def freshFiles (d : Directory Str Str) : List (FileName × Str) :=
  (filesOf d).filter fun file => shouldAddFile file.1.text false

def init (dir : Str) (d : Directory Str Str) : State where
  arrivals := { Arrivals.init dir ((filesOf d).map Prod.fst) with
    arrived := (freshFiles d).map Prod.fst }
  carried := none
  handle := Handle.init d
  files := freshFiles d
  enqueued := []
  listed := []
  closed := []

def Caught (dir : Str) (s : State) : Label → Prop
  | .close name _ => Arrivals.Caught dir s.arrivals (.close name)
  | .poller l => Arrivals.Caught dir s.arrivals l
  | _ => True

structure AtRest (s : State) : Prop where
  drained : Arrivals.Drained s.arrivals
  carried : s.carried = none
  queue : s.handle.queue = []
  workers : ∀ w, s.handle.workers w = .idle

/-- One call has streamed the file and archived it, and the other calls on it have
done nothing. -/
def Archived (s : Handle.State) (name content : Str) : Prop :=
  ∃ before after rows ending,
    s.calls.filter (fun call => call.name = name) = before ++ winner name rows ending :: after ∧
    Streamed content rows ending ∧
    (∀ other ∈ before ++ after, other.streamed = none ∧ other.renames = []) ∧
    s.directory.find name = none ∧ s.directory.find (done name) = some content

theorem nameOf_behind_slash {name : Str} (h : '/' ∉ name) (d : Str) :
    nameOf (d ++ '/' :: name) = name := by
  have hrev : (d ++ '/' :: name).reverse = name.reverse ++ '/' :: d.reverse := by simp
  have hname : ∀ c ∈ name.reverse, decide (c ≠ '/') = true := by
    intro c hc
    rw [decide_eq_true_iff]
    rintro rfl
    exact h (List.mem_reverse.mp hc)
  rw [nameOf, hrev, List.takeWhile_append_of_pos hname]
  simp

theorem nameOf_leads {dir path : Str} {name : FileName} (h : Leads dir path name) :
    nameOf path = name.text := by
  obtain ⟨d, rfl⟩ := h.behind_slash
  exact nameOf_behind_slash name.noSlash d

/-- The poller takes no notice of what the program does itself. -/
theorem addedPaths_own {dir : Str} {before after : Handle.State} {w : Nat} {event : InotifyEvent}
    (h : event ∈ ownRecords before after w) : addedPaths dir event = [] := by
  rcases List.mem_append.mp h with h | h
  · obtain ⟨move, -, hmove⟩ := List.mem_flatMap.mp h
    have hcreate (mask : BitVec 32) (hmask : mask = inMovedFrom ∨ mask = inMovedTo) :
        ¬ mask &&& inCreate ≠ 0 ∧ ¬ mask &&& inClose ≠ 0 := by
      rcases hmask with rfl | rfl <;> decide
    rcases List.mem_cons.mp hmove with rfl | hmove
    · obtain ⟨h₁, h₂⟩ := hcreate inMovedFrom (.inl rfl)
      simp only [addedPaths, handleEvent, if_neg h₁, if_neg h₂, ite_self]
    · rw [List.mem_singleton.mp hmove]
      obtain ⟨h₁, h₂⟩ := hcreate inMovedTo (.inr rfl)
      simp only [addedPaths, handleEvent, if_neg h₁, if_neg h₂, ite_self]
  · unfold closeRecords at h
    split at h
    next name rows ending hphase =>
      rw [List.eq_nil_iff_forall_not_mem]
      intro path hpath
      have hadd := (mem_addedPaths hpath).2
      rw [List.mem_singleton.mp h] at hadd
      simp only at hadd
      split_ifs at hadd
      · exact HandleOnce.not_shouldAddFile_done name hadd
      · exact HandleOnce.not_shouldAddFile_inprogress name hadd
    next => cases h

theorem foldl_notify (events : List InotifyEvent) (s : Arrivals.State) :
    events.foldl Arrivals.State.notify s = { s with
      pending := s.pending ++ if s.poller.watching then events else [] } := by
  induction events generalizing s with
  | nil => simp
  | cons event events ih =>
      rw [List.foldl_cons, ih, Arrivals.notify_eq]
      cases hw : s.poller.watching <;> simp

theorem kept_notify {dir : Str} {s : Arrivals.State} (hs : Kept dir s) (event : InotifyEvent) :
    Kept dir (s.notify event) := by
  have hsane := hs.sane.notify event
  rw [Arrivals.notify_eq] at hsane ⊢
  refine ⟨hsane, hs.listing, ?_⟩
  intro hl name hn
  exact (hs.held hl name hn).imp_right fun hm => Arrivals.mem_pending_notify hm event

theorem kept_foldl_notify {dir : Str} {s : Arrivals.State} (hs : Kept dir s)
    (events : List InotifyEvent) : Kept dir (events.foldl Arrivals.State.notify s) := by
  induction events generalizing s with
  | nil => exact hs
  | cons event events ih => exact ih (kept_notify hs event)

structure Moved (dir : Str) (l : Arrivals.Label) (s t : Arrivals.State) : Prop where
  names : t.names = s.names
  writing : t.writing = s.writing
  arrived : t.arrived = s.arrived
  pending : ∀ event ∈ t.pending, event ∈ s.pending
  returned : t.returned = s.returned ∨ ∃ path, t.returned = s.returned ++ [path]
  known : ∀ path ∈ t.known, path ≠ [] → path ∈ s.known ∨
    (∃ event ∈ s.pending, path ∈ addedPaths dir event) ∨
    ∃ seen, l = .list seen ∧ seen ⊆ s.names ∧
      ∃ name ∈ seen, path = entryPath dir name.text ∧ shouldAddFile name.text true = true

theorem moved_return {dir : Str} {l : Arrivals.Label} (s : Arrivals.State) :
    Moved dir l s (s.return s.poller.takeBack) := by
  refine ⟨rfl, rfl, rfl, fun _ h => h, .inr ⟨_, rfl⟩, ?_⟩
  intro path hpath hne
  rcases Arrivals.known_return.mp hpath with h | ⟨-, rfl⟩
  · exact .inl h
  · exact absurd rfl hne

theorem step_moved {dir : Str} {s t : Arrivals.State} {l : Arrivals.Label} (hs : Sane dir s)
    (hl : ofPoller l = true) (h : Arrivals.step dir s l = some t) : Moved dir l s t := by
  cases l with
  | create | close => cases hl
  | openDirectory =>
      obtain ⟨-, he⟩ := Option.ite_none_right_eq_some.mp h
      cases he
      exact ⟨rfl, rfl, rfl, fun _ h => h, .inl rfl, fun _ h _ => .inl h⟩
  | list seen =>
      obtain ⟨present, hp, ⟨-, hseen⟩, rfl⟩ := Arrivals.step_list h
      refine ⟨rfl, rfl, rfl, fun _ h => h, .inl rfl, ?_⟩
      intro path hpath _
      have hl' : s.phase.listed = false := by rw [hp]; rfl
      obtain ⟨-, hk⟩ := hs.unlisted hl'
      have hr : s.returned = [] := (List.append_eq_nil_iff.mp hk).2
      simp only [Arrivals.State.known, hr, List.append_nil] at hpath
      obtain ⟨text, hm, rfl, hadd⟩ := mem_construct.mp hpath
      obtain ⟨name, hname, rfl⟩ := List.mem_map.mp hm
      exact .inr (.inr ⟨seen, rfl, hseen, name, hname, rfl, hadd⟩)
  | poll =>
      obtain ⟨-, he⟩ := Option.ite_none_right_eq_some.mp h
      split_ifs at he
      · cases he
        exact moved_return s
      · cases he
        exact ⟨rfl, rfl, rfl, fun _ h => h, .inl rfl, fun _ h _ => .inl h⟩
      · cases he
        exact ⟨rfl, rfl, rfl, fun _ h => h, .inl rfl, fun _ h _ => .inl h⟩
  | watch =>
      obtain ⟨-, he⟩ := Option.ite_none_right_eq_some.mp h
      cases he
      exact ⟨rfl, rfl, rfl, fun _ h => h, .inl rfl, fun _ h _ => .inl h⟩
  | read n =>
      obtain ⟨-, -, -, -, hpending, -, -, hknown⟩ := Arrivals.step_read hs h
      obtain ⟨-, he⟩ := Option.ite_none_right_eq_some.mp h
      refine ⟨?_, ?_, ?_, ?_, ?_, ?_⟩
      · cases he
        rfl
      · cases he
        rfl
      · cases he
        rfl
      · rw [hpending]
        exact fun event hm => List.mem_of_mem_drop hm
      · cases he
        exact .inr ⟨_, rfl⟩
      · intro path hm hne
        rcases hknown path hm with hk | ⟨event, hevent, hadd⟩ | hn
        · exact .inl hk
        · exact .inr (.inl ⟨event, List.mem_of_mem_take hevent, hadd⟩)
        · exact absurd hn hne

def Taken (name : Str) (s : Handle.State) : Prop :=
  name ∈ s.queue ∨ (∃ w, subject (s.workers w) = some name) ∨ ∃ call ∈ s.calls, call.name = name

theorem taken_of_subject {s t : Handle.State} {w v : Nat} {name : Str}
    (hothers : ∀ v ≠ w, t.workers v = s.workers v)
    (hself : subject (s.workers w) = some name → Taken name t)
    (hv : subject (s.workers v) = some name) : Taken name t := by
  by_cases hvw : v = w
  · exact hself (hvw ▸ hv)
  · exact .inr (.inl ⟨v, by rw [hothers v hvw]; exact hv⟩)

theorem worked_taken {s t : Handle.State} {w : Nat} {a : Handle.Action} {name : Str}
    (h : Handle.Worked s w a t) (hs : Taken name s) : Taken name t := by
  have hsubject {v : Nat} := @taken_of_subject s t w v name (Handle.worked_others h)
  cases h with
  | @take other queue hphase hq =>
      rcases hs with hm | ⟨v, hv⟩ | hc
      · rw [hq] at hm
        rcases List.mem_cons.mp hm with rfl | hm
        · refine .inr (.inl ⟨w, ?_⟩)
          rw [Handle.goto_workers_self]
          rfl
        · exact .inl hm
      · apply hsubject ?_ hv
        rw [hphase]
        intro hc
        cases hc
      · exact .inr (.inr hc)
  | @decrement call hphase =>
      rcases hs with hm | ⟨v, hv⟩ | ⟨other, hm, he⟩
      · exact .inl hm
      · apply hsubject ?_ hv
        rw [hphase]
        intro he
        exact .inr (.inr ⟨call, List.mem_append_right _ (List.mem_singleton_self call),
          Option.some.inj he⟩)
      · exact .inr (.inr ⟨other, List.mem_append_left _ hm, he⟩)
  | row outcome hphase =>
      rcases hs with hm | ⟨v, hv⟩ | hc
      · exact .inl hm
      · apply hsubject ?_ hv
        intro hw
        refine .inr (.inl ⟨w, ?_⟩)
        rw [Handle.goto_workers_self, HandleOnce.afterRow_subject]
        rw [hphase] at hw
        exact hw
      · exact .inr (.inr hc)
  | increment hphase | renamed hphase | missing hphase | opened hphase | endOfFile hphase
  | loadFails hphase | archived hphase | unarchived hphase =>
      rcases hs with hm | ⟨v, hv⟩ | hc
      · exact .inl hm
      · apply hsubject ?_ hv
        intro hw
        refine .inr (.inl ⟨w, ?_⟩)
        rw [Handle.goto_workers_self]
        rw [hphase] at hw
        exact hw
      · exact .inr (.inr hc)

theorem taken_of_worked {s t : Handle.State} {w : Nat} {a : Handle.Action} {name : Str}
    (h : Handle.Worked s w a t) (ht : Taken name t) : Taken name s := by
  rcases ht with hm | ⟨v, hv⟩ | ⟨call, hm, he⟩
  · exact .inl (Handle.worked_queue h name hm)
  · rcases HandleOnce.worked_subject h v hv with hv | hm
    · exact .inr (.inl ⟨v, hv⟩)
    · exact .inl hm
  · rcases HandleOnce.worked_calls h hm with hm | hv
    · exact .inr (.inr ⟨call, hm, he⟩)
    · exact .inr (.inl ⟨w, he ▸ hv⟩)

def Complete (s : Handle.State) (name : Str) : Prop :=
  name ∈ s.created ∧ shouldAddFile name false = true

structure Held (dir : Str) (s : State) : Prop where
  kept : Kept dir s.arrivals
  filtered : Filtered s.handle
  names : ∀ name ∈ s.arrivals.names,
    (name ∈ s.arrivals.writing ∨ name.text ∈ s.handle.created) ∧ ¬ inprogressMark <:+ name.text
  writing : ∀ name ∈ s.arrivals.writing, name.text ∉ s.handle.created
  created : ∀ name : FileName, name.text ∈ s.handle.created → name ∈ s.arrivals.names
  known : ∀ path ∈ s.arrivals.known, path ≠ [] → Complete s.handle (nameOf path)
  pending : ∀ event ∈ s.arrivals.pending, ∀ path ∈ addedPaths dir event,
    Complete s.handle (nameOf path)
  taken : ∀ name, Taken name s.handle → name ∈ s.handle.created
  carried : ∀ path, s.carried = some path → path ∈ s.arrivals.returned
  passed : ∀ path ∈ s.arrivals.returned, path ≠ [] →
    s.carried = some path ∨ Taken (nameOf path) s.handle
  files : ∀ file ∈ s.files, file.1 ∈ s.arrivals.arrived ∧ Queued file.1.text file.2 s.handle

theorem fileName_ext {name name' : FileName} (h : name.text = name'.text) : name = name' := by
  cases name
  cases name'
  cases h
  rfl

theorem addedPaths_inCreate (dir : Str) (name : FileName) :
    addedPaths dir (record inCreate name) = [] := by
  have hmask : inCreate &&& inCreate ≠ 0 := by decide
  rw [addedPaths, handleEvent, record, if_pos hmask, ite_self]

theorem nameOf_addedPaths {dir path : Str} {mask : BitVec 32} {name : FileName}
    (h : path ∈ addedPaths dir (record mask name)) :
    nameOf path = name.text ∧ shouldAddFile name.text false = true := by
  obtain ⟨rfl, hadd⟩ := mem_addedPaths h
  exact ⟨nameOf_leads (.inr rfl), hadd⟩

section HeldSteps

variable {dir : Str} {s t : State}

theorem pending_notify {s : Arrivals.State} {pending : List InotifyEvent} {P : Str → Prop}
    {event : InotifyEvent} (hs : ∀ event ∈ pending, ∀ path ∈ addedPaths dir event, P path)
    (hevent : ∀ path ∈ addedPaths dir event, P path) (hpending : s.pending = pending) :
    ∀ other ∈ (s.notify event).pending, ∀ path ∈ addedPaths dir other, P path := by
  intro other hm
  rw [Arrivals.notify_eq, hpending] at hm
  simp only at hm
  split_ifs at hm
  · rcases List.mem_append.mp hm with hm | hm
    · exact hs other hm
    · rw [List.mem_singleton.mp hm]
      exact hevent
  · exact hs other hm

theorem notify_known (s : Arrivals.State) (event : InotifyEvent) :
    (s.notify event).known = s.known ∧ (s.notify event).returned = s.returned ∧
      (s.notify event).names = s.names ∧ (s.notify event).writing = s.writing ∧
      (s.notify event).arrived = s.arrived := by
  rw [Arrivals.notify_eq]
  exact ⟨rfl, rfl, rfl, rfl, rfl⟩

theorem Held.create (hs : Held dir s) {name : FileName}
    (h : step dir s (.create name) = some t) : Held dir t := by
  obtain ⟨arrivals, ha, rfl⟩ := Option.map_eq_some_iff.mp h
  obtain ⟨⟨hfresh, hadd⟩, he⟩ := Option.ite_none_right_eq_some.mp ha
  cases he
  have hkept := hs.kept.created hfresh hadd
  obtain ⟨hknown, hreturned, hnames, hwriting, harrived⟩ := notify_known
    { s.arrivals with names := name :: s.arrivals.names, writing := name :: s.arrivals.writing }
    (record inCreate name)
  refine ⟨hkept, hs.filtered, ?_, ?_, ?_, ?_, ?_, hs.taken, ?_, ?_, ?_⟩
  · intro other hm
    rw [hwriting]
    rcases List.mem_cons.mp (hnames ▸ hm) with rfl | hm
    · exact ⟨.inl List.mem_cons_self, ((shouldAddFile_running _).mp hadd).1⟩
    · exact ⟨(hs.names other hm).1.imp_left (List.mem_cons_of_mem _), (hs.names other hm).2⟩
  · intro other hm
    rcases List.mem_cons.mp (hwriting ▸ hm) with rfl | hm
    · exact fun hc => hfresh (hs.created _ hc)
    · exact hs.writing other hm
  · intro other hm
    rw [hnames]
    exact List.mem_cons_of_mem _ (hs.created other hm)
  · rw [hknown]
    exact hs.known
  · refine pending_notify hs.pending ?_ rfl
    rw [addedPaths_inCreate]
    simp
  · rw [hreturned]
    exact hs.carried
  · rw [hreturned]
    exact hs.passed
  · rw [harrived]
    exact hs.files

theorem Held.close (hs : Held dir s) {name : FileName} {content : Str}
    (hcaught : Caught dir s (.close name content))
    (h : step dir s (.close name content) = some t) : Held dir t := by
  obtain ⟨arrivals, ha, h⟩ := Option.bind_eq_some_iff.mp h
  obtain ⟨handle, hh, rfl⟩ := Option.map_eq_some_iff.mp h
  obtain ⟨hmem, he⟩ := Option.ite_none_right_eq_some.mp ha
  cases he
  have hnew := hs.writing name hmem
  have hadd := (hs.kept.sane.writing name hmem).2
  have hadmissible : HandleOnce.Admissible s.handle (.create name.text content) := ⟨hnew, hadd⟩
  have hkept := hs.kept.closed hmem hcaught
  have hfiltered := HandleOnce.step_filtered dir _ _ _ hh hadmissible hs.filtered
  have hstep := hh
  obtain ⟨e, hcreate, rfl⟩ := Option.map_eq_some_iff.mp hh
  have hcomplete {other : Str} (hc : Complete s.handle other) :
      Complete { s.handle with directory := e, created := name.text :: s.handle.created } other :=
    ⟨List.mem_cons_of_mem _ hc.1, hc.2⟩
  have hunseen : HandleOnce.Unseen name.text s.handle := by
    refine ⟨fun hm => hnew (hs.taken _ (.inl hm)), ?_, ?_⟩
    · intro w hw
      exact hnew (hs.taken _ (.inr (.inl ⟨w, hw⟩)))
    · intro call hm he
      exact hnew (hs.taken _ (.inr (.inr ⟨call, hm, he⟩)))
  obtain ⟨hknown, hreturned, hnames, hwriting, harrived⟩ := notify_known
    { s.arrivals with
      writing := s.arrivals.writing.filter (· ≠ name), arrived := name :: s.arrivals.arrived }
    (record inCloseWrite name)
  refine ⟨hkept, hfiltered, ?_, ?_, ?_, ?_, ?_, ?_, ?_, ?_, ?_⟩
  · intro other hm
    obtain ⟨hwhere, hclean⟩ := hs.names other (hnames ▸ hm)
    refine ⟨?_, hclean⟩
    rw [hwriting]
    by_cases ho : other = name
    · rw [ho]
      exact .inr List.mem_cons_self
    · refine hwhere.imp (fun hw => ?_) (List.mem_cons_of_mem _)
      exact List.mem_filter.mpr ⟨hw, decide_eq_true ho⟩
  · intro other hm
    obtain ⟨hm, ho⟩ := List.mem_filter.mp (hwriting ▸ hm)
    intro hc
    rcases List.mem_cons.mp hc with he | hc
    · exact of_decide_eq_true ho (fileName_ext he)
    · exact hs.writing other hm hc
  · intro other hm
    rw [hnames]
    rcases List.mem_cons.mp hm with he | hm
    · rw [fileName_ext he]
      exact (hs.kept.sane.writing name hmem).1
    · exact hs.created other hm
  · rw [hknown]
    exact fun path hm hne => hcomplete (hs.known path hm hne)
  · refine pending_notify (fun event hm path hp => hcomplete (hs.pending event hm path hp)) ?_ rfl
    intro path hp
    obtain ⟨hname, hadd⟩ := nameOf_addedPaths hp
    rw [hname]
    exact ⟨List.mem_cons_self, hadd⟩
  · exact fun other ht => List.mem_cons_of_mem _ (hs.taken other ht)
  · rw [hreturned]
    exact hs.carried
  · rw [hreturned]
    exact hs.passed
  · intro file hm
    rw [harrived]
    rcases List.mem_cons.mp hm with rfl | hm
    · refine ⟨List.mem_cons_self, hfiltered, List.mem_cons_self, ?_⟩
      refine HandleOnce.unseen_waiting ⟨hunseen.queue, hunseen.workers, hunseen.calls⟩ ?_
      rw [Directory.find_create hcreate, if_pos rfl]
    · obtain ⟨harr, hqueued⟩ := hs.files file hm
      refine ⟨List.mem_cons_of_mem _ harr, ?_⟩
      exact HandleOnce.step_queued dir file.2 (hs.kept.sane.arrived file.1 harr).2.2 _ _ _ hstep
        hadmissible hqueued

theorem Held.look (hs : Held dir s) {name : FileName}
    (h : step dir s (.look name) = some t) : Held dir t := by
  obtain ⟨hmem, he⟩ := Option.ite_none_right_eq_some.mp h
  cases he
  obtain ⟨hknown, hreturned, hnames, hwriting, harrived⟩ :=
    notify_known s.arrivals (record inCloseNowrite name)
  refine ⟨kept_notify hs.kept _, hs.filtered, ?_, ?_, ?_, ?_, ?_, hs.taken, ?_, ?_, ?_⟩
  · rw [hnames, hwriting]
    exact hs.names
  · rw [hwriting]
    exact hs.writing
  · rw [hnames]
    exact hs.created
  · rw [hknown]
    exact hs.known
  · refine pending_notify hs.pending ?_ rfl
    intro path hp
    obtain ⟨hname, hadd⟩ := nameOf_addedPaths hp
    rw [hname]
    exact ⟨hs.filtered.names _ (Directory.find_isSome.mp hmem) hadd, hadd⟩
  · rw [hreturned]
    exact hs.carried
  · rw [hreturned]
    exact hs.passed
  · rw [harrived]
    exact hs.files

theorem Held.polled (hs : Held dir s) {l : Arrivals.Label} (hcaught : Caught dir s (.poller l))
    (h : step dir s (.poller l) = some t) : Held dir t := by
  obtain ⟨hguard, h⟩ := Option.ite_none_right_eq_some.mp h
  obtain ⟨arrivals, ha, rfl⟩ := Option.map_eq_some_iff.mp h
  simp only [Bool.and_eq_true, Option.isNone_iff_eq_none] at hguard
  obtain ⟨⟨hof, hwhole⟩, hcarried⟩ := hguard
  have hmoved := step_moved hs.kept.sane hof ha
  have hkept := Arrivals.step_kept dir _ _ _ ha hcaught hs.kept
  refine ⟨hkept, hs.filtered, ?_, ?_, ?_, ?_, ?_, hs.taken, ?_, ?_, ?_⟩
  · intro name hm
    change (name ∈ arrivals.writing ∨ _) ∧ _
    rw [hmoved.writing]
    exact hs.names name (hmoved.names ▸ hm)
  · intro name hm
    exact hs.writing name (hmoved.writing ▸ hm)
  · intro name hm
    change name ∈ arrivals.names
    rw [hmoved.names]
    exact hs.created name hm
  · intro path hm hne
    rcases hmoved.known path hm hne with
      hk | ⟨event, hevent, hp⟩ | ⟨seen, rfl, hseen, name, hname, rfl, hadd⟩
    · exact hs.known path hk hne
    · exact hs.pending event hevent path hp
    · obtain ⟨hwhere, hclean⟩ := hs.names name (hseen hname)
      rw [nameOf_leads (.inl rfl)]
      refine ⟨hwhere.resolve_left ?_, ?_⟩
      · simpa using List.all_eq_true.mp hwhole name hname
      · rw [shouldAddFile_running]
        exact ⟨hclean, (shouldAddFile_startingUp _).mp hadd⟩
  · intro event hm
    exact hs.pending event (hmoved.pending event hm)
  · intro path hp
    rcases hmoved.returned with hr | ⟨r, hr⟩
    · simp [State.polled, hr] at hp
    · simp only [State.polled, hr, List.drop_left, List.head?_cons, Option.some.injEq] at hp ⊢
      rw [hp]
      exact List.mem_append_right _ (List.mem_singleton_self path)
  · intro path hm hne
    have hold : path ∈ s.arrivals.returned → Taken (nameOf path) s.handle := by
      intro hm
      apply (hs.passed path hm hne).resolve_left
      rw [hcarried]
      simp
    rcases hmoved.returned with hr | ⟨r, hr⟩
    · exact .inr (hold (hr ▸ hm))
    · simp only [State.polled, hr, List.drop_left, List.head?_cons, Option.some.injEq] at hm ⊢
      rcases List.mem_append.mp hm with hm | hm
      · exact .inr (hold hm)
      · exact .inl (List.mem_singleton.mp hm).symm
  · intro file hm
    change file.1 ∈ arrivals.arrived ∧ _
    rw [hmoved.arrived]
    exact hs.files file hm

theorem Held.enqueue (hs : Held dir s) (h : step dir s .enqueue = some t) : Held dir t := by
  obtain ⟨path, hp, rfl⟩ := Option.map_eq_some_iff.mp h
  have hreturned := hs.carried path hp
  rw [State.handOver]
  split_ifs with hne
  · have hne' : path ≠ [] := by
      rintro rfl
      cases hne
    have hcomplete := hs.known path (List.mem_append_right _ hreturned) hne'
    have hstep : Handle.step dir s.handle (.enqueue (nameOf path)) =
        some { s.handle with queue := s.handle.queue ++ [nameOf path] } := by
      rw [Handle.step, if_pos]
      rw [shouldAddFile_eventPath]
      exact hcomplete.2
    have hfiltered := HandleOnce.step_filtered dir _ _ _ hstep trivial hs.filtered
    have hgrown {name : Str} (ht : Taken name s.handle) :
        Taken name { s.handle with queue := s.handle.queue ++ [nameOf path] } :=
      ht.imp_left (List.mem_append_left _)
    refine ⟨hs.kept, hfiltered, hs.names, hs.writing, hs.created, hs.known, hs.pending,
      ?_, ?_, ?_, ?_⟩
    · rintro name (hm | ht)
      · rcases List.mem_append.mp hm with hm | hm
        · exact hs.taken name (.inl hm)
        · rw [List.mem_singleton.mp hm]
          exact hcomplete.1
      · exact hs.taken name (.inr ht)
    · intro other ho
      cases ho
    · intro other hm hne
      right
      rcases hs.passed other hm hne with he | ht
      · rw [hp] at he
        cases he
        exact .inl (List.mem_append_right _ (List.mem_singleton_self _))
      · exact hgrown ht
    · intro file hm
      obtain ⟨harr, hqueued⟩ := hs.files file hm
      exact ⟨harr, HandleOnce.step_queued dir file.2 (hs.kept.sane.arrived file.1 harr).2.2 _ _ _
        hstep trivial hqueued⟩
  · have hnil : path = [] := by simpa using hne
    refine ⟨hs.kept, hs.filtered, hs.names, hs.writing, hs.created, hs.known, hs.pending, hs.taken,
      ?_, ?_, hs.files⟩
    · intro other ho
      cases ho
    · intro other hm hne
      refine .inr ((hs.passed other hm hne).resolve_left ?_)
      rw [hp, hnil]
      intro he
      exact hne (Option.some.inj he).symm

theorem Held.worker (hs : Held dir s) {w : Nat} {a : Handle.Action}
    (h : step dir s (.worker w a) = some t) : Held dir t := by
  obtain ⟨handle, hh, rfl⟩ := Option.map_eq_some_iff.mp h
  have hworked := Handle.workerStep_worked hh
  have hstep : Handle.step dir s.handle (.worker w a) = some handle := hh
  have hfiltered := HandleOnce.step_filtered dir _ _ _ hstep trivial hs.filtered
  have hcreated := HandleOnce.worked_created hworked
  have hkept := kept_foldl_notify hs.kept (ownRecords s.handle handle w)
  rw [foldl_notify] at hkept ⊢
  refine ⟨hkept, hfiltered, ?_, ?_, ?_, ?_, ?_, ?_, hs.carried, ?_, ?_⟩
  · rw [hcreated]
    exact hs.names
  · rw [hcreated]
    exact hs.writing
  · rw [hcreated]
    exact hs.created
  · intro path hm hne
    rw [Complete, hcreated]
    exact hs.known path hm hne
  · intro event hm path hp
    rw [Complete, hcreated]
    rcases List.mem_append.mp hm with hm | hm
    · exact hs.pending event hm path hp
    · split_ifs at hm
      · rw [addedPaths_own hm] at hp
        cases hp
      · cases hm
  · intro name ht
    rw [hcreated]
    exact hs.taken name (taken_of_worked hworked ht)
  · intro path hm hne
    exact (hs.passed path hm hne).imp_right (worked_taken hworked)
  · intro file hm
    obtain ⟨harr, hqueued⟩ := hs.files file hm
    exact ⟨harr, HandleOnce.step_queued dir file.2 (hs.kept.sane.arrived file.1 harr).2.2 _ _ _
      hstep trivial hqueued⟩

end HeldSteps

theorem step_held (dir : Str) (s : State) (l : Label) (t : State) (h : step dir s l = some t)
    (hcaught : Caught dir s l) (hs : Held dir s) : Held dir t := by
  cases l with
  | create name => exact hs.create h
  | close name content => exact hs.close hcaught h
  | look name => exact hs.look h
  | poller l => exact hs.polled hcaught h
  | enqueue => exact hs.enqueue h
  | worker w a => exact hs.worker h

theorem mem_filesOf {d : Directory Str Str} {file : FileName × Str} :
    file ∈ filesOf d ↔ (file.1.text, file.2) ∈ d.entries := by
  rw [filesOf, List.mem_filterMap]
  constructor
  · rintro ⟨entry, hm, he⟩
    rw [fileOf] at he
    split_ifs at he
    cases he
    exact hm
  · intro hm
    exact ⟨_, hm, by rw [fileOf, dif_pos file.1.noSlash]⟩

theorem mem_freshFiles {d : Directory Str Str} {file : FileName × Str} :
    file ∈ freshFiles d ↔ file ∈ filesOf d ∧ shouldAddFile file.1.text false = true :=
  List.mem_filter

theorem init_sane (dir : Str) (d : Directory Str Str) : Sane dir (init dir d).arrivals := by
  refine ⟨rfl, fun _ h => (by cases h), ?_, fun _ => ⟨rfl, rfl⟩,
    fun _ => ⟨rfl, fun _ h => (by cases h)⟩, fun h => (by cases h), ?_⟩
  · intro name hm
    obtain ⟨file, hfresh, rfl⟩ := List.mem_map.mp hm
    obtain ⟨hfile, hadd⟩ := mem_freshFiles.mp hfresh
    exact ⟨List.mem_map_of_mem hfile, List.not_mem_nil, hadd⟩
  · intro path hm
    simp [init, Arrivals.init] at hm

theorem init_held (dir : Str) {d : Directory Str Str}
    (hclean : ∀ name ∈ d.names, ¬ inprogressMark <:+ name) : Held dir (init dir d) := by
  have hname {name : FileName} (hm : name ∈ (filesOf d).map Prod.fst) : name.text ∈ d.names := by
    obtain ⟨file, hfile, rfl⟩ := List.mem_map.mp hm
    exact List.mem_map_of_mem (f := Prod.fst) (mem_filesOf.mp hfile)
  have hfiltered := HandleOnce.init_filtered d
  refine ⟨⟨init_sane dir d, fun h => (by cases h), fun h => (by cases h)⟩, hfiltered, ?_,
    fun _ h => (by cases h), ?_, fun _ h => (by cases h), fun _ h => (by cases h), ?_,
    fun _ h => (by cases h), fun _ h => (by cases h), ?_⟩
  · intro name hm
    exact ⟨.inr (hname hm), hclean _ (hname hm)⟩
  · intro name hm
    obtain ⟨⟨text, content⟩, hentry, he⟩ := List.mem_map.mp hm
    obtain rfl : text = name.text := he
    have hfile : (name, content) ∈ filesOf d := mem_filesOf.mpr hentry
    exact List.mem_map_of_mem (f := Prod.fst) hfile
  · rintro name (hm | ⟨w, hw⟩ | ⟨call, hm, -⟩)
    · cases hm
    · cases hw
    · cases hm
  · intro file hm
    obtain ⟨hfile, -⟩ := mem_freshFiles.mp hm
    have hentry := mem_filesOf.mp hfile
    refine ⟨List.mem_map_of_mem hm, hfiltered, List.mem_map_of_mem (f := Prod.fst) hentry, ?_⟩
    exact HandleOnce.unseen_waiting (HandleOnce.init_unseen file.1.text d)
      (Directory.find_eq_some_iff.mpr hentry)

theorem custody_archived {s : Handle.State} {name content : Str} (hs : Custody name content s)
    (hidle : ∀ w, s.workers w = .idle) (hcall : ∃ call ∈ s.calls, call.name = name) :
    Archived s name content := by
  cases hs with
  | waiting hfind hphase hcalls =>
      obtain ⟨call, hm, he⟩ := hcall
      exact absurd he (hcalls call hm)
  | held w hgone hfind hphase =>
      rw [hidle w] at hphase
      exact hphase.elim
  | closed w rows ending hgone hfind hphase =>
      rw [hidle w] at hphase
      cases hphase
  | archived before after rows ending hgone hfind hphase hrows hcalls hother =>
      refine ⟨before, after, rows, ending, hcalls, hrows, ?_, hgone, hfind⟩
      intro other hm
      have hin : other ∈ s.calls.filter fun call => call.name = name := by
        rw [hcalls]
        rcases List.mem_append.mp hm with hm | hm
        · exact List.mem_append_left _ hm
        · exact List.mem_append_right _ (List.mem_cons_of_mem _ hm)
      exact hother other hm (of_decide_eq_true (List.mem_filter.mp hin).2)

variable {dir : Str} {d : Directory Str Str} {tr : List Label} {t : State}

theorem held_archived (hs : Held dir t) (hrest : AtRest t) :
    ∀ file ∈ t.files, Archived t.handle file.1.text file.2 := by
  intro file hm
  obtain ⟨harrived, hqueued⟩ := hs.files file hm
  obtain ⟨hpaths, hpending, hlast⟩ := hrest.drained
  have hlisted := Arrivals.drained_listed hs.kept.sane hrest.drained
  have hpath : ∃ path ∈ t.arrivals.returned, Leads dir path file.1 := by
    rcases hs.kept.held hlisted file.1 harrived with ⟨path, hk, hlead⟩ | hm
    · rw [Arrivals.State.known, hpaths, List.nil_append] at hk
      exact ⟨path, hk, hlead⟩
    · rw [hpending] at hm
      cases hm
  obtain ⟨path, hreturned, hlead⟩ := hpath
  have hne : path ≠ [] := by
    rintro rfl
    exact Arrivals.not_leads_nil dir file.1 hlead
  have htaken : Taken file.1.text t.handle := by
    rw [← nameOf_leads hlead]
    apply (hs.passed path hreturned hne).resolve_left
    rw [hrest.carried]
    simp
  apply custody_archived hqueued.custody hrest.workers
  rcases htaken with hm | ⟨w, hw⟩ | hcall
  · rw [hrest.queue] at hm
    cases hm
  · rw [hrest.workers w] at hw
    cases hw
  · exact hcall

def readTwice : List Label :=
  [.poller .openDirectory, .poller (.list []), .poller .poll, .poller .watch,
    .create ⟨['a'], by decide⟩, .close ⟨['a'], by decide⟩ ['h', '\n', '1'],
    .look ⟨['a'], by decide⟩, .poller (.read 3), .enqueue, .worker 0 .take, .worker 0 .increment,
    .worker 0 .renameFirst, .worker 0 .openFile, .worker 0 (.row .published), .poller .poll, .enqueue,
    .worker 1 .take, .worker 1 .increment, .worker 1 .renameFirst, .worker 1 .decrement,
    .worker 0 .endOfFile, .worker 0 .renameLast, .worker 0 .decrement, .poller .poll,
    .poller (.read 5), .enqueue]

instance decidableArrivalsCaught (dir : Str) (s : Arrivals.State) :
    (l : Arrivals.Label) → Decidable (Arrivals.Caught dir s l)
  | .list _ => inferInstanceAs (Decidable (∀ _ ∈ _, _))
  | .close _ => inferInstanceAs (Decidable (_ → _ ∨ _))
  | .create _ | .openDirectory | .poll | .watch | .read _ => isTrue trivial

instance decidableCaught (dir : Str) (s : State) : (l : Label) → Decidable (Caught dir s l)
  | .close name _ => decidableArrivalsCaught dir s.arrivals (.close name)
  | .poller l => decidableArrivalsCaught dir s.arrivals l
  | .create _ | .look _ | .enqueue | .worker _ _ => isTrue trivial

def handed : Option Str → List Str
  | some path => if path.isEmpty then [] else [nameOf path]
  | none => []

def told (dir : Str) (pending : List InotifyEvent) : List Str :=
  (pending.flatMap (addedPaths dir)).map nameOf

def State.load (dir : Str) (s : State) (name : Str) : Nat :=
  s.enqueued.count name + (handed s.carried).count name +
    (s.arrivals.poller.filePaths.map nameOf).count name + (told dir s.arrivals.pending).count name

def State.causes (s : State) (name : Str) : Nat := s.listed.count name + s.closed.count name

structure Caused (dir : Str) (s : State) : Prop where
  sane : Sane dir s.arrivals
  unlisted : s.arrivals.phase.listed = false → s.listed = []
  load : ∀ name, s.load dir name ≤ s.causes name

theorem told_append (dir : Str) (xs ys : List InotifyEvent) :
    told dir (xs ++ ys) = told dir xs ++ told dir ys := by
  rw [told, List.flatMap_append, List.map_append]
  rfl

theorem addedPaths_sublist (dir : Str) (event : InotifyEvent) :
    (addedPaths dir event).Sublist [eventPath dir event.name] := by
  rw [addedPaths, handleEvent]
  simp only [List.nil_append]
  split_ifs
  all_goals simp

theorem told_record (dir : Str) (mask : BitVec 32) (name : FileName) (other : Str) :
    (told dir [record mask name]).count other ≤ [name.text].count other := by
  have hname : nameOf (eventPath dir name.text) = name.text := nameOf_leads (.inr rfl)
  rw [told, List.flatMap_singleton, ← hname]
  exact ((addedPaths_sublist dir (record mask name)).map nameOf).count_le other

theorem told_own {dir : Str} {before after : Handle.State} {w : Nat} :
    told dir (ownRecords before after w) = [] := by
  rw [told, List.flatMap_eq_nil_iff.mpr fun event hm => addedPaths_own hm]
  rfl

theorem told_notify (dir : Str) (s : Arrivals.State) (event : InotifyEvent) (name : Str) :
    (told dir (s.notify event).pending).count name ≤
      (told dir s.pending).count name + (told dir [event]).count name := by
  rw [Arrivals.notify_eq]
  simp only
  split_ifs
  · rw [told_append, List.count_append]
  · exact Nat.le_add_right _ _

theorem takeBack_handed (poller : DirectoryPoller) (name : Str) :
    (handed (some poller.takeBack.1.get)).count name +
        (poller.takeBack.2.filePaths.map nameOf).count name ≤
      (poller.filePaths.map nameOf).count name := by
  rcases takeBack_cases poller with ⟨hf, ht⟩ | ⟨rest, path, hf, ht⟩
  · simp [ht, hf, handed]
  · simp only [ht, hf, handed, List.map_append, List.count_append, List.map_cons, List.map_nil]
    split_ifs
    · simp
    · omega

theorem sane_foldl_notify {dir : Str} {s : Arrivals.State} (hs : Sane dir s)
    (events : List InotifyEvent) : Sane dir (events.foldl Arrivals.State.notify s) := by
  induction events generalizing s with
  | nil => exact hs
  | cons event events ih => exact ih (hs.notify event)

theorem polled_quiet {s : State} {l : Arrivals.Label} {arrivals : Arrivals.State} {name : Str}
    (hcarried : s.carried = none) (hreturned : arrivals.returned = s.arrivals.returned)
    (hfilePaths : arrivals.poller.filePaths = s.arrivals.poller.filePaths)
    (hpending : arrivals.pending = s.arrivals.pending) :
    (s.polled l arrivals).load dir name ≤ s.load dir name := by
  apply Nat.le_of_eq
  simp [State.load, State.polled, hreturned, hfilePaths, hpending, hcarried]

theorem polled_return {s : State} {l : Arrivals.Label} {arrivals : Arrivals.State}
    {poller : DirectoryPoller} {name : Str} (hcarried : s.carried = none)
    (hload : (poller.filePaths.map nameOf).count name + (told dir arrivals.pending).count name ≤
      (s.arrivals.poller.filePaths.map nameOf).count name +
        (told dir s.arrivals.pending).count name)
    (hreturned : arrivals.returned = s.arrivals.returned) :
    (s.polled l (arrivals.return poller.takeBack)).load dir name ≤ s.load dir name := by
  have hback := takeBack_handed poller name
  have hhead : (s.polled l (arrivals.return poller.takeBack)).carried =
      some poller.takeBack.1.get := by
    simp [State.polled, Arrivals.State.return, hreturned]
  have hnone : (handed s.carried).count name = 0 := by
    rw [hcarried]
    rfl
  rw [State.load, hhead, State.load, hnone]
  change s.enqueued.count name + _ + (poller.takeBack.2.filePaths.map nameOf).count name +
    (told dir arrivals.pending).count name ≤ _
  omega

theorem polled_caused {s t : State} (hs : Caused dir s) {l : Arrivals.Label}
    (h : step dir s (.poller l) = some t) : Caused dir t := by
  obtain ⟨hguard, h⟩ := Option.ite_none_right_eq_some.mp h
  obtain ⟨arrivals, ha, rfl⟩ := Option.map_eq_some_iff.mp h
  simp only [Bool.and_eq_true, Option.isNone_iff_eq_none] at hguard
  obtain ⟨⟨hof, -⟩, hcarried⟩ := hguard
  have hsane := Arrivals.step_sane dir _ _ _ ha hs.sane
  cases l with
  | create | close => cases hof
  | openDirectory =>
      obtain ⟨hp, he⟩ := Option.ite_none_right_eq_some.mp ha
      cases he
      refine ⟨hsane, fun _ => hs.unlisted (by rw [hp]; rfl), fun name => ?_⟩
      refine Nat.le_trans (polled_quiet hcarried ?_ ?_ ?_) (hs.load name)
      all_goals rfl
  | list seen =>
      obtain ⟨present, hp, -, rfl⟩ := Arrivals.step_list ha
      refine ⟨hsane, fun hc => (by cases hc), ?_⟩
      intro name
      have hnone := hs.unlisted (by rw [hp]; rfl)
      have hload := hs.load name
      simp only [State.load, State.causes, State.polled, List.drop_length, List.head?_nil, handed,
        hcarried, hnone, List.count_nil] at hload ⊢
      omega
  | poll =>
      obtain ⟨hp, he⟩ := Option.ite_none_right_eq_some.mp ha
      have hl : s.arrivals.phase.listed = true := by rw [hp]; rfl
      split_ifs at he
      · cases he
        refine ⟨hsane, fun hc => (by cases hc), fun name => ?_⟩
        exact Nat.le_trans (polled_return hcarried (Nat.le_refl _) rfl) (hs.load name)
      all_goals
        cases he
        refine ⟨hsane, fun hc => (by cases hc), fun name => ?_⟩
        refine Nat.le_trans (polled_quiet hcarried ?_ ?_ ?_) (hs.load name)
        all_goals rfl
  | watch =>
      obtain ⟨hp, he⟩ := Option.ite_none_right_eq_some.mp ha
      cases he
      refine ⟨hsane, fun hc => (by cases hc), fun name => ?_⟩
      refine Nat.le_trans (polled_quiet hcarried ?_ ?_ ?_) (hs.load name)
      all_goals rfl
  | read n =>
      obtain ⟨hp, he⟩ := Option.ite_none_right_eq_some.mp ha
      cases he
      refine ⟨hsane, fun hc => (by cases hc), fun name => ?_⟩
      refine Nat.le_trans ?_ (hs.load name)
      have hsplit : (told dir s.arrivals.pending).count name =
          (told dir (s.arrivals.pending.take n)).count name +
            (told dir (s.arrivals.pending.drop n)).count name := by
        rw [← List.count_append, ← told_append, List.take_append_drop]
      rw [DirectoryPoller.pollEvents, hs.sane.dirToWatch, foldl_handleEvent]
      refine polled_return hcarried ?_ rfl
      have hadded : ((s.arrivals.pending.take n).flatMap (addedPaths dir)).map nameOf =
          told dir (s.arrivals.pending.take n) := rfl
      simp only [List.map_append, List.count_append, hsplit, hadded]
      omega

theorem caused_notify {s t : State} (hs : Caused dir s) {base : Arrivals.State}
    {event : InotifyEvent} {extra : List Str} (hsane : Sane dir t.arrivals)
    (harrivals : t.arrivals = base.notify event)
    (hbase : base.phase = s.arrivals.phase ∧ base.poller = s.arrivals.poller ∧
      base.pending = s.arrivals.pending)
    (hsame : t.carried = s.carried ∧ t.enqueued = s.enqueued ∧ t.listed = s.listed)
    (hclosed : t.closed = s.closed ++ extra)
    (hevent : ∀ name, (told dir [event]).count name ≤ extra.count name) : Caused dir t := by
  obtain ⟨hphase, hpoller, hpending⟩ := hbase
  obtain ⟨hcarried, henqueued, hlisted⟩ := hsame
  have hkept : t.arrivals.phase = s.arrivals.phase ∧ t.arrivals.poller = s.arrivals.poller := by
    rw [harrivals, Arrivals.notify_eq]
    exact ⟨hphase, hpoller⟩
  refine ⟨hsane, ?_, ?_⟩
  · rw [hkept.1, hlisted]
    exact hs.unlisted
  · intro name
    have hload := hs.load name
    have htold := told_notify dir base event name
    have hextra := hevent name
    rw [hpending] at htold
    rw [State.load, State.causes] at hload ⊢
    rw [hkept.2, harrivals, hcarried, henqueued, hlisted, hclosed, List.count_append]
    omega

theorem handOver_caused {s : State} (hs : Caused dir s) {path : Str} (hp : s.carried = some path) :
    Caused dir (s.handOver path) := by
  rw [State.handOver]
  split_ifs with hne
  · refine ⟨hs.sane, hs.unlisted, fun name => ?_⟩
    have hload := hs.load name
    have hempty : path.isEmpty = false := by simpa using hne
    rw [State.load, State.causes] at hload ⊢
    simp only [hp, handed, hempty, List.count_append, Bool.false_eq_true, if_false,
      List.count_nil] at hload ⊢
    omega
  · refine ⟨hs.sane, hs.unlisted, fun name => ?_⟩
    have hload := hs.load name
    have hempty : path.isEmpty = true := by simpa using hne
    rw [State.load, State.causes] at hload ⊢
    simp only [hp, handed, hempty, if_true] at hload ⊢
    exact hload

theorem step_caused (dir : Str) (s : State) (l : Label) (t : State) (h : step dir s l = some t)
    (hs : Caused dir s) : Caused dir t := by
  cases l with
  | create name =>
      obtain ⟨arrivals, ha, rfl⟩ := Option.map_eq_some_iff.mp h
      have hsane := Arrivals.step_sane dir _ _ _ ha hs.sane
      obtain ⟨-, he⟩ := Option.ite_none_right_eq_some.mp ha
      refine caused_notify hs hsane (Option.some.inj he).symm ⟨rfl, rfl, rfl⟩ ⟨rfl, rfl, rfl⟩
        (List.append_nil _).symm ?_
      intro other
      rw [told, List.flatMap_singleton, addedPaths_inCreate]
      exact Nat.le_refl _
  | close name content =>
      obtain ⟨arrivals, ha, h⟩ := Option.bind_eq_some_iff.mp h
      obtain ⟨handle, -, rfl⟩ := Option.map_eq_some_iff.mp h
      have hsane := Arrivals.step_sane dir _ _ _ ha hs.sane
      obtain ⟨-, he⟩ := Option.ite_none_right_eq_some.mp ha
      exact caused_notify hs hsane (Option.some.inj he).symm ⟨rfl, rfl, rfl⟩ ⟨rfl, rfl, rfl⟩ rfl
        (told_record dir inCloseWrite name)
  | look name =>
      obtain ⟨-, he⟩ := Option.ite_none_right_eq_some.mp h
      cases he
      exact caused_notify hs (hs.sane.notify _) rfl ⟨rfl, rfl, rfl⟩ ⟨rfl, rfl, rfl⟩ rfl
        (told_record dir inCloseNowrite name)
  | poller l => exact polled_caused hs h
  | enqueue =>
      obtain ⟨path, hp, rfl⟩ := Option.map_eq_some_iff.mp h
      exact handOver_caused hs hp
  | worker w a =>
      obtain ⟨handle, -, rfl⟩ := Option.map_eq_some_iff.mp h
      have hsane := sane_foldl_notify hs.sane (ownRecords s.handle handle w)
      refine ⟨hsane, ?_, ?_⟩
      · rw [foldl_notify]
        exact hs.unlisted
      · intro name
        have hload := hs.load name
        rw [State.load, State.causes] at hload ⊢
        rw [foldl_notify]
        simp only
        split_ifs
        · rw [told_append, told_own, List.append_nil]
          exact hload
        · rw [List.append_nil]
          exact hload

theorem init_caused (dir : Str) (d : Directory Str Str) : Caused dir (init dir d) :=
  ⟨init_sane dir d, fun _ => rfl, fun _ => Nat.le_refl _⟩

end Flycatcher.Pipeline
